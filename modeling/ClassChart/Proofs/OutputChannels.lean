import ClassChart.Proofs.CanonicalJson
import ClassChart.Proofs.DirectoryRun
import ClassChart.Proofs.OwnErrors
import ClassChart.Proofs.TreeEdits
import ClassChart.Proofs.Walk

/-!
# One diagram on every way out

The diagram of a file is printed, written to a file, or put into an envelope in JSON. On each way it
is the diagram of the text of the file, with the settings in force. Only what is printed as it is
loses its terminal codes: the file has them, and in JSON they are escaped.

## Main definitions

* `World.IsSilent`: nothing but notices has been told
* `Command.deliver`: what is done with the diagram of a file
* `Command.Draws`: the diagram of a file can be had, and is the text
* `Command.IsDiagramOf`: the diagram in terms of the text of the file and the settings

## Main results

* `Command.perform_of_exit_zero`: a run on a file that succeeds
* `Command.deliver_print`, `Command.deliver_file`, `Command.deliver_json`: the three ways out
* `Command.Draws.generate_on`: every run on a file delivers its diagram
* `Command.generate_channels`: what three runs on a file leave
-/

namespace ClassChart

open Text (Bytes)
open Text.Utf8 (encode decodeFile)

/-! ## What was told -/

/-- Nothing but notices has been told. -/
def World.IsSilent (w : World) : Prop :=
  ∀ e ∈ w.events, ∃ n, e = .notice n

namespace World.IsSilent

variable {w : World}

theorem noting (h : w.IsSilent) (ns : List Notice) : (w.noting ns).IsSilent := by
  refine List.forall_mem_append.mpr ⟨h, ?_⟩
  intro e he
  obtain ⟨n, -, rfl⟩ := List.mem_map.mp he
  exact ⟨n, rfl⟩

theorem withParser (h : w.IsSilent) (host : Host) : (w.withParser host).IsSilent := by
  unfold World.withParser
  split
  · exact h
  · split
    · exact h.noting _
    · exact h

/-- After notices only, what is printed is what is told next. -/
theorem outputText_eq (h : w.IsSilent) {r : Command.Run} {s : String}
    (hr : r.world = w.telling [.output s]) : r.outputText = s := by
  rw [Command.Run.outputText, hr, World.telling, List.filterMap_append,
    List.filterMap_eq_nil_iff.mpr ?_]
  · simp [String.join]
  · intro e he
    obtain ⟨n, rfl⟩ := h e he
    rfl

end World.IsSilent

/-- Plain text is printed as it is, with the end of its line. -/
theorem Job.printLine_of_arePlain {s : String} (h : Json.ArePlain s.toList) (w : World) :
    (printLine s).on w = (.ok (), w.telling [.output (s ++ "\n")]) := by
  have hline : RawText.ofString s ++ [.char '\n'] = RawText.ofString (s ++ "\n") := by
    simp [RawText.ofString]
  have hplain : Json.ArePlain (s ++ "\n").toList := by
    rw [String.toList_append]
    exact Json.arePlain_append.mpr ⟨h, by decide +kernel⟩
  rw [printLine, print, hline, Text.dropCodes_of_arePlain hplain, RawText.toString?_ofString]
  rfl

/-! ## Envelopes -/

theorem RawText.isPaired_ofString (s : String) : IsPaired (ofString s) := by
  rw [IsPaired, ofString, List.isChain_map]
  apply List.Pairwise.isChain
  apply List.pairwise_of_forall
  intro a b hpair
  rw [Symbol.code, Json.isHigh_toNat] at hpair
  exact Bool.false_ne_true hpair.1

/-- The fields of an envelope before those of the payload. -/
def envelopeHead (command : String) (summary : Json) : Object :=
  [("schema", .str "classdiagram-envelope-v1"), ("schema_version", .str "1.0.0"),
    ("command", .str command), ("version", .str programVersion),
    ("summary", if summary.isNothing then .obj [] else summary)]

/-- The field of an envelope that is set last. -/
def envelopeTime (now : Timestamp) : Object :=
  [("_meta", .obj [("timestamp", .str now.text)])]

/-- Setting a field is merging with an object of that field alone. -/
theorem envelope_eq (now : Timestamp) (command : String) (summary : Json) (payload : Object) :
    envelope now command summary payload =
      ((envelopeHead command summary).merge payload).merge (envelopeTime now) := by
  unfold envelope envelopeHead envelopeTime
  rfl

theorem names_envelopeHead (command : String) (summary : Json) :
    (envelopeHead command summary).names =
      ["schema", "schema_version", "command", "version", "summary"].map RawText.ofString := by
  unfold envelopeHead
  rfl

theorem hasFaithful_envelopeHead (command : String) {summary : Json} (h : summary.IsFaithful) :
    Json.HasFaithful (envelopeHead command summary) := by
  have hpaired := RawText.isPaired_ofString
  have hshown : (if summary.isNothing then .obj [] else summary : Json).IsFaithful := by
    split
    · exact ⟨List.nodup_nil, trivial⟩
    · exact h
  unfold envelopeHead
  exact ⟨hpaired _, hpaired _, hpaired _, hpaired _, hpaired _, hpaired _, hpaired _, hpaired _,
    hpaired _, hshown, trivial⟩

theorem hasFaithful_envelopeTime (now : Timestamp) : Json.HasFaithful (envelopeTime now) := by
  have hpaired := RawText.isPaired_ofString
  unfold envelopeTime
  exact ⟨hpaired _, ⟨List.nodup_singleton _, hpaired _, hpaired _, trivial⟩, trivial⟩

/-- **An envelope is read back** if its summary and payload are. -/
theorem isFaithful_envelope (now : Timestamp) (command : String) {summary : Json}
    (hsummary : summary.IsFaithful) {payload : Object} (hpayload : Json.HasFaithful payload) :
    (Json.obj (envelope now command summary payload)).IsFaithful := by
  have hnames : (envelopeHead command summary).names.Nodup := by
    rw [names_envelopeHead]
    decide +kernel
  have hhead := hasFaithful_envelopeHead command hsummary
  have htime := hasFaithful_envelopeTime now
  rw [Json.hasFaithful_iff] at hpayload hhead htime
  rw [envelope_eq, Json.IsFaithful, Json.hasFaithful_iff]
  constructor
  · exact Object.nodup_merge (Object.nodup_merge hnames payload) (envelopeTime now)
  · exact Object.forall_mem_merge (Object.forall_mem_merge hhead hpayload) htime

/-- A field of the payload is a field of the envelope, unless it is in the place of the time. -/
theorem find?_envelope (now : Timestamp) (command : String) (summary : Json) {payload : Object}
    (hpayload : payload.names.Nodup) {name : RawText} (hname : name ≠ RawText.ofString "_meta")
    {v : Json} (h : payload.find? name = some v) :
    (envelope now command summary payload).find? name = some v := by
  have htime : (envelopeTime now).find? name = none := by
    rw [envelopeTime, Object.find?_cons, if_neg hname]
    rfl
  have hnodup : (envelopeTime now).names.Nodup := List.nodup_singleton _
  rw [envelope_eq, Object.find?_merge _ hnodup, htime, Option.none_or,
    Object.find?_merge _ hpayload, h, Option.some_or]

/-- **The line of an envelope** denotes its fields in order. -/
theorem parse_envelope (now : Timestamp) (command : String) {summary : Json}
    (hsummary : summary.IsFaithful) {payload : Object} (hpayload : Json.HasFaithful payload) :
    Json.parse (Json.canonical (.obj (envelope now command summary payload)) ++ "\n") =
      .ok (.obj (Json.sortedObject (envelope now command summary payload))) :=
  Json.parse_text_line (.indented 2)
    (Json.isFaithful_sorted (isFaithful_envelope now command hsummary hpayload))

/-! ## The diagram of a source -/

/-- The path of a file is not drawn. -/
theorem diagram_of_outline {source : Bytes} {tree : SyntaxTree} {p : String} {unit : Declaration}
    (h : (Syntax.outline source tree p).outcome = .ok unit) (q : String) (style : Style) :
    ∃ other, (Syntax.outline source tree q).outcome = .ok other ∧
      diagram style other = diagram style unit := by
  rw [Syntax.outline_outcome] at h ⊢
  cases hmembers : (Syntax.declarations source tree.root.children (pure [])).outcome with
  | error missing =>
    rw [hmembers] at h
    cases h
  | ok members =>
    rw [hmembers] at h
    cases h
    exact ⟨_, rfl, rfl⟩

namespace Command

variable {host : Host} {style : Style} {w : World}

/-- The text of a file gives the diagram of the file. -/
theorem generateFromSource_of_fileOutline {parser : Parser} {p : Path} {text : String}
    {unit : Declaration} (hparser : parserFor host w = .ok parser)
    (hunit : (fileOutline parser p text).outcome = .ok unit) (style : Style) :
    ((generateFromSource host (.text text) defaultLanguage style).on w).1 =
      .ok (diagram style unit) := by
  obtain ⟨other, hother, hdiagram⟩ := diagram_of_outline hunit "" style
  have hparse := parseSource_of_path host (Source.bytes?_text text) "" w
  simp only [hparser, Job.on_ofOutline, hother] at hparse
  rw [generateFromSource, Job.on_bind_ok hparse, hdiagram]
  rfl

/-- A source whose text has an outline gives the diagram of the outline. -/
theorem fileDiagram_of_outline {input : Path} {content : Bytes} {decoded : String}
    {parser : Parser} {unit : Declaration} (hlanguage : languageOf? input = some defaultLanguage)
    (hread : w.files.read input = .ok content) (hdecode : decodeFile content = .ok decoded)
    (hparser : parserFor host w = .ok parser)
    (hunit : (fileOutline parser input decoded).outcome = .ok unit) (style : Style) :
    (fileDiagram host input style).on w = (.ok (diagram style unit),
      (w.withParser host).noting (fileOutline parser input decoded).notices) := by
  have hattempt := attempt_generateFromFile_on host hlanguage style w
  simp only [hread, hdecode, hparser, hunit] at hattempt
  rw [fileDiagram, Job.on_bind_ok hattempt]
  rfl

/-- **The diagram of a file that can be had** is that of the outline of its text. -/
theorem fileDiagram_eq_ok {input : Path} {content : Bytes} {text : RawText} {mid : World}
    (hread : w.files.read input = .ok content)
    (h : (fileDiagram host input style).on w = (.ok text, mid)) :
    languageOf? input = some defaultLanguage ∧
    ∃ decoded parser unit, decodeFile content = .ok decoded ∧ parserFor host w = .ok parser ∧
      (fileOutline parser input decoded).outcome = .ok unit ∧ text = diagram style unit := by
  -- none of the errors in words came up
  have hnone : ∀ e, ¬ FileError (parserFor host w) input content e := by
    intro e he
    obtain ⟨next, hnext, -⟩ := fileDiagram_of_fileError hread he style
    rw [hnext] at h
    cases h
  have hlanguage : languageOf? input = some defaultLanguage :=
    (languageOf?_eq input).resolve_left fun hnot => hnone _ (.extension hnot)
  refine ⟨hlanguage, ?_⟩
  cases hdecode : decodeFile content with
  | error fault => exact absurd (.content hlanguage hdecode) (hnone _)
  | ok decoded =>
    cases hparser : parserFor host w with
    | error reason => exact absurd (.grammar hlanguage hdecode hparser) (hnone _)
    | ok parser =>
      cases hunit : (fileOutline parser input decoded).outcome with
      | error missing =>
        have hattempt := attempt_generateFromFile_on host hlanguage style w
        simp only [hread, hdecode, hparser, hunit] at hattempt
        rw [fileDiagram, Job.on_bind_error hattempt] at h
        cases h
      | ok unit =>
        rw [fileDiagram_of_outline hlanguage hread hdecode hparser hunit style] at h
        obtain ⟨htext, -⟩ := Prod.mk.inj h
        exact ⟨decoded, parser, unit, rfl, rfl, hunit, (Except.ok.inj htext).symm⟩

/-! ## The ways out -/

/-- What is done with the diagram of a file. -/
def deliver (host : Host) (json : Bool) (output : Option Path) (text : RawText) : Job Unit :=
  match output with
  | some target => do
    writeDiagram target text
    if json then
      printEnvelope host "generate" (runSummary "ok" 1 0) [("written", .arr [.str target.toText])]
    else Job.printLine ("Wrote " ++ target.toText : String)
  | none =>
    if json then printEnvelope host "generate" (runSummary "ok" 1 0) [("diagram", .str text)]
    else Job.print text

theorem generateFile_eq (json : Bool) (input : Path) (output : Option Path) (style : Style) :
    generateFile host json input output style = (do
      let text ← fileDiagram host input style
      deliver host json output text
      return 0) := by
  unfold generateFile deliver
  congr 1
  funext text
  cases output with
  | none => cases json <;> simp
  | some target => cases json <;> simp

/-- **A diagram that is printed** loses its terminal codes. -/
theorem deliver_print (host : Host) (s : String) (mid : World) :
    ∃ printed : String, (deliver host false none (RawText.ofString s)).on mid =
        (.ok (), mid.telling [.output printed]) ∧
      RawText.ofString printed = Text.dropCodes s := by
  obtain ⟨printed, hprints⟩ := Job.on_print (RawText.isText_ofString s) mid
  obtain ⟨same, hsame, hworld⟩ := Job.print_eq_ok hprints
  obtain rfl : printed = same := by simpa [World.telling] using congrArg World.events hworld
  exact ⟨printed, hprints, hsame.symm⟩

theorem speaks_printEnvelope (command : String) (summary payload : Object) :
    (printEnvelope host command summary payload).Speaks := by
  unfold printEnvelope
  exact Job.speaks_printLine _

/-- **A diagram that goes to a file** is what the file has. -/
theorem deliver_file {json : Bool} {target : Path} {text : RawText} {mid next : World}
    (hbase : mid.files.look (target.base mid.files.cwd) = .folder)
    (h : (deliver host json (some target) text).on mid = (.ok (), next)) :
    ∃ s : String, text = RawText.ofString s ∧ next.files.read target = .ok (encode s) := by
  rw [deliver] at h
  obtain ⟨_, last, hwrites, hrest⟩ := Job.on_bind_eq_ok h
  obtain ⟨s, made, after, htext, hmade, hafter, rfl⟩ := writeDiagram_eq_ok hwrites
  refine ⟨s, htext, ?_⟩
  have hread := Files.read_of_makeDirs_write hbase hmade hafter
  -- what is printed after the file is written leaves it alone
  have hspeaks : (if json = true then
      printEnvelope host "generate" (runSummary "ok" 1 0) [("written", .arr [.str target.toText])]
      else Job.printLine ("Wrote " ++ target.toText : String)).Speaks := by
    split
    · exact speaks_printEnvelope _ _ _
    · exact Job.speaks_printLine _
  obtain ⟨events, hevents⟩ :=
    hspeaks (World.noting { mid with files := after } [.wrote target.toText])
  rw [hevents] at hrest
  rw [← (Prod.mk.inj hrest).2]
  exact hread

/-- An envelope is always printed, and a field of the payload is read back from it. -/
theorem printEnvelope_on (host : Host) (command : String) {summary payload : Object}
    (hsummary : (Json.obj summary).IsFaithful) (hpayload : (Json.obj payload).IsFaithful)
    {name : RawText} (hname : name ≠ RawText.ofString "_meta") {v : Json}
    (hv : payload.find? name = some v) (mid : World) :
    ∃ line fields, (printEnvelope host command summary payload).on mid =
        (.ok (), mid.telling [.output line]) ∧
      Json.parse line = .ok (.obj fields) ∧ Object.find? fields name = some v.sorted := by
  have hline := Job.printLine_of_arePlain (Json.arePlain_canonical
    (.obj (envelope host.now command (.obj summary) payload))) mid
  have hnodup := (isFaithful_envelope host.now command hsummary hpayload.2).1
  rw [printEnvelope]
  refine ⟨_, _, hline, parse_envelope host.now command hsummary hpayload.2, ?_⟩
  rw [Json.find?_sortedObject hnodup, find?_envelope _ _ _ hpayload.1 hname hv, Option.map_some]

/-- **A diagram in JSON** is read back from what is printed. -/
theorem deliver_json (host : Host) (s : String) (mid : World) :
    ∃ line fields, (deliver host true none (RawText.ofString s)).on mid =
        (.ok (), mid.telling [.output line]) ∧
      Json.parse line = .ok (.obj fields) ∧ Object.find? fields "diagram" = some (.str s) := by
  have hsummary : (Json.obj (runSummary "ok" 1 0)).IsFaithful := by decide +kernel
  have hpayload : (Json.obj [("diagram", .str s)]).IsFaithful :=
    ⟨List.nodup_singleton _, RawText.isPaired_ofString _, RawText.isPaired_ofString s, trivial⟩
  have hname : RawText.ofString "diagram" ≠ RawText.ofString "_meta" := by decide +kernel
  have hv : Object.find? [("diagram", .str s)] "diagram" = some (.str s) := by
    rw [Object.find?_cons, if_pos rfl]
  simp only [deliver, if_true]
  exact printEnvelope_on host "generate" hsummary hpayload hname hv mid

/-! ## Runs that succeed -/

theorem obstacle?_ne_exit (options : GenerateOptions) (fs : Files) (code : Int) :
    options.obstacle? fs ≠ some (.exit code) := by
  unfold GenerateOptions.obstacle?
  repeat' split
  all_goals nofun

theorem FileError.exitCode_ne_zero {loaded : Except String Parser} {input : Path} {content : Bytes}
    {e : Error} (h : FileError loaded input content e) : e.exitCode ≠ 0 := by
  cases h with
  | extension | content | grammar => exact of_decide_eq_false rfl

/-- A run whose command ends with an exit code. -/
theorem perform_of_ok {args : List String} {json verbose : Bool} {options : GenerateOptions}
    {code : Int} {next : World}
    (hargs : Invocation.ofArguments args = .run json verbose (.generate options))
    (hbegin : options.obstacle? w.files = none)
    (h : (generate host json options).on w = (.ok code, next)) :
    (perform host args w).ending = .exit code ∧ (perform host args w).world = next := by
  have hreport : ((Action.generate options).report host json).on w = (.ok code, next) := by
    rw [Action.report, Job.on_tryCatch, Action.perform, h]
  exact perform_of_report hargs hbegin hreport

/-- **A run on a file that succeeds** is one of the command to its end. -/
theorem perform_of_exit_zero {args : List String} {json verbose : Bool} {options : GenerateOptions}
    {fs : Files} (hargs : Invocation.ofArguments args = .run json verbose (.generate options))
    (hdir : fs.isDir (Path.ofText options.input) = false)
    (h : (perform host args { files := fs }).ending = .exit 0) :
    options.obstacle? fs = none ∧ (generate host json options).on { files := fs } =
      (.ok 0, (perform host args { files := fs }).world) := by
  cases hbegin : options.obstacle? fs with
  | some ending =>
    have hobstacle : (Action.generate options).obstacle? fs = some ending := hbegin
    have hending : ending = .exit 0 := by
      rw [perform, hargs] at h
      simpa only [hobstacle] using h
    exact absurd (hending ▸ hbegin) (obstacle?_ne_exit options fs 0)
  | none =>
    refine ⟨rfl, ?_⟩
    rcases hrun : (generate host json options).on { files := fs } with ⟨failure | code, next⟩
    · by_cases hwords : ∃ e, failure = .reported e
      · -- an error in words has an exit code of its own
        obtain ⟨e, rfl⟩ := hwords
        obtain ⟨content, hread⟩ := exists_read_of_obstacle? hbegin hdir
        have hreported : ((generate host json options).on { files := fs }).1 =
            .error (.reported e) := by rw [hrun]
        have herror :=
          ((reports_generate_file (w := { files := fs }) hread hdir).of_reported hreported).1.2
        have hending := (perform_of_reported (w := { files := fs }) hargs hbegin hrun).1
        rw [h] at hending
        exact absurd (Ending.exit.inj hending).symm herror.exitCode_ne_zero
      · -- a failure without words ends the run as it is
        have hreport : ((Action.generate options).report host json).on { files := fs } =
            (.error failure, next) := by
          rw [Action.report, Job.on_tryCatch, Action.perform, hrun]
          cases failure with
          | reported e => exact absurd ⟨e, rfl⟩ hwords
          | _ => rfl
        have hending := (perform_of_report (w := { files := fs }) hargs hbegin hreport).1
        rw [h] at hending
        cases hending
    · obtain ⟨hending, hworld⟩ := perform_of_ok (w := { files := fs }) hargs hbegin hrun
      rw [hworld, Ending.exit.inj (hending.symm.trans h)]

/-- What a run begins with does not keep it from beginning without an output. -/
theorem obstacle?_of_output {fs : Files} {options : GenerateOptions} {output : Option String}
    (h : GenerateOptions.obstacle? fs { options with output } = none) :
    GenerateOptions.obstacle? fs { options with output := none } = none := by
  unfold GenerateOptions.obstacle? at h ⊢
  simp only [Option.any_none, Bool.false_eq_true, if_false]
  repeat' split at h
  all_goals simp_all

/-! ## One diagram -/

/-- The style in force for a file of a project. -/
def styleInForce (host : Host) (fs : Files) (options : GenerateOptions) (root : Path) : Style where
  indent := indentInForce host options.indent (settingsAt fs root)
  framed := frameInForce options.framed (settingsAt fs root)
  title := options.title.map RawText.ofString

/-- The settings can be looked up, the file has an outline, and the text is the diagram of it in the
style in force. -/
def Draws (host : Host) (fs : Files) (options : GenerateOptions) (text : RawText) : Prop :=
  CanPrepare host fs options ∧ ∃ root content decoded parser unit,
    projectRoot fs (startOf fs options) = .ok root ∧
    languageOf? (Path.ofText options.input) = some defaultLanguage ∧
    fs.read (Path.ofText options.input) = .ok content ∧ decodeFile content = .ok decoded ∧
    parserFor host { files := fs } = .ok parser ∧
    (fileOutline parser (Path.ofText options.input) decoded).outcome = .ok unit ∧
    text = diagram (styleInForce host fs options root) unit

/-- The text is the diagram of a file: the file is read as a text without a byte order mark and with
line feeds, and its diagram is that of the text, with the settings in force for the project and the
title asked for. -/
def IsDiagramOf (host : Host) (fs : Files) (options : GenerateOptions) (text : RawText) : Prop :=
  ∃ content decoded root indent framed,
    fs.read (Path.ofText options.input) = .ok content ∧ decodeFile content = .ok decoded ∧
    projectRoot fs (Path.ofText options.input).parent = .ok root ∧
    ((resolveIndent host options.indent root).on { files := fs }).1 = .ok indent ∧
    ((resolveFrame options.framed root).on { files := fs }).1 = .ok framed ∧
    ((generateFromSource host (.text decoded) defaultLanguage
      { indent, framed, title := options.title.map RawText.ofString }).on { files := fs }).1 = .ok text

section Draws

variable {fs : Files} {options : GenerateOptions} {text : RawText}

/-- A run on a file that succeeds has drawn its diagram. -/
theorem exists_draws {json : Bool} {code : Int} {next : World}
    (h : (generate host json options).on { files := fs } = (.ok code, next))
    (hdir : fs.isDir (Path.ofText options.input) = false) {content : Bytes}
    (hread : fs.read (Path.ofText options.input) = .ok content) :
    ∃ text, Draws host fs options text := by
  have hprepare : CanPrepare host fs options := by
    by_contra hnot
    obtain ⟨fault, ns, hfails⟩ := generate_of_not_canPrepare (w := { files := fs }) json hnot
    rw [h] at hfails
    cases hfails
  obtain ⟨root, ns, hroot, hstyled⟩ := generate_of_canPrepare (w := { files := fs }) json hprepare
  rw [h, generateStyled, if_neg (by simp [hdir]), generateFile_eq] at hstyled
  obtain ⟨text, mid, hdiagram, -⟩ := Job.on_bind_eq_ok hstyled.symm
  obtain ⟨hlanguage, decoded, parser, unit, hdecode, hparser, hunit, htext⟩ :=
    fileDiagram_eq_ok (w := World.noting { files := fs } ns) hread hdiagram
  exact ⟨text, hprepare, root, content, decoded, parser, unit, hroot, hlanguage, hread, hdecode,
    hparser, hunit, htext⟩

/-- **Every run on the file** delivers the diagram, having told nothing but notices and changed no
file before. -/
theorem Draws.generate_on (h : Draws host fs options text)
    (hdir : fs.isDir (Path.ofText options.input) = false) (json : Bool) :
    ∃ mid : World, mid.IsSilent ∧ mid.files = fs ∧
      (generate host json options).on { files := fs } = (do
        deliver host json (options.output.map Path.ofText) text
        return 0 : Job Int).on mid := by
  obtain ⟨hprepare, root, content, decoded, parser, unit, hroot, hlanguage, hread, hdecode, hparser,
    hunit, rfl⟩ := h
  obtain ⟨root', ns, hroot', hstyled⟩ := generate_of_canPrepare (w := { files := fs }) json hprepare
  obtain rfl := Except.ok.inj (hroot.symm.trans hroot')
  rw [generateStyled, if_neg (by simp [hdir]), generateFile_eq] at hstyled
  have hdiagram := fileDiagram_of_outline (w := World.noting { files := fs } ns) hlanguage hread
    hdecode hparser hunit (styleInForce host fs options root)
  have hsilent : World.IsSilent { files := fs } := List.forall_mem_nil _
  refine ⟨_, ((hsilent.noting ns).withParser host).noting _, ?_,
    hstyled.trans (Job.on_bind_ok hdiagram)⟩
  rw [World.noting_files, World.withParser_files, World.noting_files]

/-- The settings in force are those that are looked up. -/
theorem Draws.isDiagramOf (h : Draws host fs options text)
    (hdir : fs.isDir (Path.ofText options.input) = false) : IsDiagramOf host fs options text := by
  obtain ⟨⟨root', hroot', hprobe⟩, root, content, decoded, parser, unit, hroot, -, hread, hdecode,
    hparser, hunit, rfl⟩ := h
  obtain rfl := Except.ok.inj (hroot.symm.trans hroot')
  obtain ⟨ms, hindent⟩ := resolveIndent_inForce (w := { files := fs }) fun hnone =>
    hprobe (.inl hnone)
  obtain ⟨ks, hframed⟩ := resolveFrame_inForce (w := { files := fs }) fun hnone =>
    hprobe (.inr hnone)
  have hstart : startOf fs options = (Path.ofText options.input).parent := by
    rw [startOf, if_neg (by rw [hdir]; nofun)]
  exact ⟨content, decoded, root, _, _, hread, hdecode, hstart ▸ hroot, by rw [hindent],
    by rw [hframed], generateFromSource_of_fileOutline (w := { files := fs }) hparser hunit _⟩

end Draws

/-- **One diagram on every way out.** When a run on a file writes to an output and succeeds, what
stands there is the diagram of the file. The runs that print succeed as well: one has the same
diagram in its JSON, the other prints it without its terminal codes. -/
theorem generate_channels (host : Host) {fs : Files} (hsound : fs.isSound = true)
    {options : GenerateOptions} (hdir : fs.isDir (Path.ofText options.input) = false)
    {target : String} {printing writing packing : List String}
    {json verbose₁ verbose₂ verbose₃ : Bool}
    (hprinting : Invocation.ofArguments printing =
      .run false verbose₁ (.generate { options with output := none }))
    (hwriting : Invocation.ofArguments writing =
      .run json verbose₂ (.generate { options with output := some target }))
    (hpacking : Invocation.ofArguments packing =
      .run true verbose₃ (.generate { options with output := none }))
    (h : (perform host writing { files := fs }).ending = .exit 0) :
    ∃ text : String, IsDiagramOf host fs options text ∧
      (perform host writing { files := fs }).world.files.read (Path.ofText target) =
        .ok (encode text) ∧
      ((perform host packing { files := fs }).ending = .exit 0 ∧
        ∃ fields, Json.parse (perform host packing { files := fs }).outputText =
          .ok (.obj fields) ∧ Object.find? fields "diagram" = some (.str text)) ∧
      (perform host printing { files := fs }).ending = .exit 0 ∧
      RawText.ofString (perform host printing { files := fs }).outputText = Text.dropCodes text ∧
      (Text.escapeSign ∉ text.toList →
        (perform host printing { files := fs }).outputText = text) := by
  obtain ⟨hbegin, hrun⟩ := perform_of_exit_zero hwriting hdir h
  obtain ⟨content, hread⟩ := exists_read_of_obstacle? hbegin hdir
  obtain ⟨raw, hdraws⟩ := exists_draws hrun hdir hread
  have hunimpeded := obstacle?_of_output hbegin
  -- the file that was written shows that the diagram is a text
  obtain ⟨mid, -, hfiles, hdelivers⟩ := hdraws.generate_on hdir json
  rw [hrun] at hdelivers
  obtain ⟨_, last, hdeliver, hlast⟩ := Job.on_bind_eq_ok hdelivers.symm
  obtain rfl : last = _ := (Prod.mk.inj hlast).2
  have hbase : mid.files.look ((Path.ofText target).base mid.files.cwd) = .folder := by
    rw [hfiles]
    exact Files.look_base_of_isSound hsound _
  obtain ⟨text, rfl, hwritten⟩ := deliver_file hbase hdeliver
  -- the output is no part of what the diagram depends on
  have hsame : Draws host fs { options with output := none } text := hdraws
  obtain ⟨mid₁, hsilent₁, -, hprints⟩ := hsame.generate_on hdir false
  obtain ⟨printed, hdeliver₁, hprinted⟩ := deliver_print host text mid₁
  obtain ⟨hending₁, hworld₁⟩ := perform_of_ok (w := { files := fs }) hprinting hunimpeded
    (hprints.trans (Job.on_bind_ok hdeliver₁))
  obtain ⟨mid₃, hsilent₃, -, hpacks⟩ := hsame.generate_on hdir true
  obtain ⟨line, fields, hdeliver₃, hparse, hfield⟩ := deliver_json host text mid₃
  obtain ⟨hending₃, hworld₃⟩ := perform_of_ok (w := { files := fs }) hpacking hunimpeded
    (hpacks.trans (Job.on_bind_ok hdeliver₃))
  have hshown := hsilent₁.outputText_eq hworld₁
  refine ⟨text, hsame.isDiagramOf hdir, hwritten, ⟨hending₃, fields, ?_, hfield⟩, hending₁, ?_, ?_⟩
  · rw [hsilent₃.outputText_eq hworld₃, hparse]
  · rw [hshown, hprinted]
  · intro hplain
    have hnone : Symbol.char Text.escapeSign ∉ RawText.ofString text := by
      intro hmem
      obtain ⟨c, hc, heq⟩ := List.mem_map.mp hmem
      exact hplain (Symbol.char.inj heq ▸ hc)
    rw [Text.dropCodes_of_notMem hnone] at hprinted
    have hequal := congrArg RawText.toString? hprinted
    rw [RawText.toString?_ofString, RawText.toString?_ofString] at hequal
    rw [hshown, Option.some.inj hequal]

/-- A source whose text begins with a byte order mark and has a carriage return. -/
def markedSource : Files :=
  ⟨.file "x.cs" [0xEF, 0xBB, 0xBF, 0x0D, 0x0A] .empty, []⟩

/-- Its diagram is asked for with a title. -/
def titledSource : GenerateOptions :=
  ⟨"x.cs", none, none, none, some "A", false⟩

theorem generate_channels_markedSource :
    ∃ text : String, IsDiagramOf plainHost markedSource titledSource text ∧
      (perform plainHost ["generate", "x.cs", "out/x.puml", "--title", "A"]
        { files := markedSource }).world.files.read (Path.ofText "out/x.puml") =
          .ok (encode text) ∧
      (∃ fields, Json.parse (perform plainHost ["--json", "generate", "x.cs", "--title", "A"]
          { files := markedSource }).outputText = .ok (.obj fields) ∧
        Object.find? fields "diagram" = some (.str text)) ∧
      RawText.ofString (perform plainHost ["generate", "x.cs", "--title", "A"]
        { files := markedSource }).outputText = Text.dropCodes text := by
  have hprinting : Invocation.ofArguments ["generate", "x.cs", "--title", "A"] =
      .run false false (.generate { titledSource with output := none }) := by decide +kernel
  have hwriting : Invocation.ofArguments ["generate", "x.cs", "out/x.puml", "--title", "A"] =
      .run false false (.generate { titledSource with output := some "out/x.puml" }) := by
    decide +kernel
  have hpacking : Invocation.ofArguments ["--json", "generate", "x.cs", "--title", "A"] =
      .run true false (.generate { titledSource with output := none }) := by decide +kernel
  have hsound : markedSource.isSound = true := by decide +kernel
  obtain ⟨text, hdiagram, hread, ⟨-, hfields⟩, -, hprinted, -⟩ :=
    generate_channels plainHost hsound (by decide +kernel) hprinting hwriting hpacking
      (by decide +kernel)
  exact ⟨text, hdiagram, hread, hfields, hprinted⟩

/-- What is printed as it is loses a terminal code, which the written file keeps. -/
theorem perform_codedTitle :
    (perform plainHost ["generate", "x.cs", "--title", "\x1b[1mA"]
      { files := markedSource }).outputText = "@startuml\ntitle A\n@enduml\n" ∧
    (perform plainHost ["generate", "x.cs", "out/x.puml", "--title", "\x1b[1mA"]
      { files := markedSource }).world.files.read (Path.ofText "out/x.puml") =
        .ok (encode "@startuml\ntitle \x1b[1mA\n@enduml\n") := by
  constructor <;> decide +kernel

end Command

end ClassChart
