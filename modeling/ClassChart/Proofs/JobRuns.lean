import ClassChart.Generation
import Mathlib.Data.List.Basic

/-!
# Running jobs

A job on a world gives a result or a failure, and the world after it. What a job does is stated by
an equation for its run, and a job that is made of others is run part by part. Printing a text
without lone surrogates always succeeds. The diagram of a file depends on the world by the content
of the file and by the parser alone.

## Main definitions

* `Job.on`: the run of a job
* `World.telling`, `World.noting`: a world with more told, and with more notices
* `Job.Speaks`: jobs that succeed and do nothing but tell
* `RawText.IsText`: a raw text that is a text
* `parserFor`, `World.withParser`: the parser that sources are read with, and the world that has it

## Main results

* `Job.on_bind`, `Job.on_attempt`, `Job.on_makeOnce`: running jobs made of others
* `Job.on_print`: printing a text
* `generateFromFile_on`, `attempt_generateFromFile_on`: the diagram of a file
-/

namespace ClassChart

open Text (Bytes)

namespace Job

variable {α β : Type}

/-- The run of a job on a world. -/
def on (t : Job α) (w : World) : Except Failure α × World :=
  t.run.run w

theorem on_eq_of_fst {t : Job α} {w : World} {outcome : Except Failure α}
    (h : (t.on w).1 = outcome) : t.on w = (outcome, (t.on w).2) := by
  rw [← h]

@[simp] theorem on_pure (a : α) (w : World) : (pure a : Job α).on w = (.ok a, w) := rfl

@[simp] theorem on_throw (failure : Failure) (w : World) :
    (throw failure : Job α).on w = (.error failure, w) := rfl

/-- A sequence goes on after a result and ends with a failure. -/
theorem on_bind (t : Job α) (f : α → Job β) (w : World) :
    (t >>= f).on w =
      match t.on w with
      | (.ok a, next) => (f a).on next
      | (.error failure, next) => (.error failure, next) := by
  change ExceptT.bindCont f (t.on w).1 (t.on w).2 = _
  rcases t.on w with ⟨- | -, -⟩ <;> rfl

theorem on_bind_ok {t : Job α} {f : α → Job β} {w next : World} {a : α}
    (h : t.on w = (.ok a, next)) : (t >>= f).on w = (f a).on next := by
  rw [on_bind, h]

theorem on_bind_error {t : Job α} {f : α → Job β} {w next : World} {failure : Failure}
    (h : t.on w = (.error failure, next)) : (t >>= f).on w = (.error failure, next) := by
  rw [on_bind, h]

/-- What succeeds in two parts succeeds in each. -/
theorem on_bind_eq_ok {t : Job α} {f : α → Job β} {w next : World} {b : β}
    (h : (t >>= f).on w = (.ok b, next)) :
    ∃ a mid, t.on w = (.ok a, mid) ∧ (f a).on mid = (.ok b, next) := by
  rw [on_bind] at h
  split at h
  · exact ⟨_, _, ‹_›, h⟩
  · cases h

theorem on_map (f : α → β) (t : Job α) (w : World) :
    (f <$> t).on w = ((t.on w).1.map f, (t.on w).2) := by
  rw [map_eq_pure_bind, on_bind]
  rcases t.on w with ⟨- | -, -⟩ <;> rfl

@[simp] theorem on_files (w : World) : files.on w = (.ok w.files, w) := rfl

@[simp] theorem on_setFiles (fs : Files) (w : World) :
    (setFiles fs).on w = (.ok (), { w with files := fs }) := rfl

@[simp] theorem on_tell (e : Event) (w : World) :
    (tell e).on w = (.ok (), { w with events := w.events ++ [e] }) := rfl

@[simp] theorem on_fail (e : Error) (w : World) :
    (fail e : Job α).on w = (.error (.reported e), w) := rfl

theorem on_ofFileFault (x : Except FileFault α) (w : World) :
    (ofFileFault x).on w =
      match x with
      | .ok a => (.ok a, w)
      | .error fault => (.error (.access (.file fault)), w) := by
  cases x <;> rfl

theorem on_read (p : Path) (w : World) :
    (read p).on w =
      match w.files.read p with
      | .ok content => (.ok content, w)
      | .error fault => (.error (.access (.file fault)), w) := by
  rw [read, on_bind_ok (on_files w), on_ofFileFault]
  cases w.files.read p <;> rfl

/-- A handler runs on what a failed job leaves. -/
theorem on_tryCatch (t : Job α) (handle : Failure → Job α) (w : World) :
    (tryCatch t handle : Job α).on w =
      match t.on w with
      | (.ok a, next) => (.ok a, next)
      | (.error failure, next) => (handle failure).on next := by
  simp only [on, tryCatch, tryCatchThe, MonadExceptOf.tryCatch, ExceptT.tryCatch, ExceptT.run_mk,
    StateT.run_bind]
  have hrun : StateT.run (ExceptT.run t) w = StateT.run t w := rfl
  rw [hrun]
  rcases StateT.run t w with ⟨- | -, -⟩ <;> rfl

/-- An attempt turns access faults into results, except for misused paths. -/
theorem on_attempt (t : Job α) (w : World) :
    (attempt t).on w =
      match t.on w with
      | (.ok a, next) => (.ok (.ok a), next)
      | (.error (.access (.file .nullCharacter)), next) =>
        (.error (.access (.file .nullCharacter)), next)
      | (.error (.access fault), next) => (.ok (.error fault), next)
      | (.error failure, next) => (.error failure, next) := by
  rw [attempt, on_tryCatch, on_map]
  rcases t.on w with ⟨failure | a, next⟩
  · rcases failure with e | (fault | fault) | - | -
    · rfl
    · cases fault <;> rfl
    · rfl
    · rfl
    · rfl
  · rfl

/-- What is kept is not made again, and what is made is kept. -/
theorem on_makeOnce (shelf : Shelf α) (make : String → Job α) (name : String) (w : World) :
    (makeOnce shelf make name).on w =
      match (shelf.kept w).lookup name with
      | some found => (.ok found, w)
      | none =>
        match (make name).on w with
        | (.ok made, next) => (.ok made, shelf.keep name made next)
        | (.error failure, next) => (.error failure, next) := by
  have hget : (get : Job World).on w = (.ok w, w) := rfl
  rw [makeOnce, on_bind_ok hget]
  cases (shelf.kept w).lookup name with
  | some found => rfl
  | none =>
    simp only [on_bind]
    rcases (make name).on w with ⟨- | -, -⟩ <;> rfl

end Job

/-! ## Telling -/

namespace World

/-- The world with more told. -/
def telling (w : World) (events : List Event) : World :=
  { w with events := w.events ++ events }

@[simp] theorem telling_files (w : World) (events : List Event) :
    (w.telling events).files = w.files := rfl

@[simp] theorem telling_parsers (w : World) (events : List Event) :
    (w.telling events).parsers = w.parsers := rfl

theorem telling_nil (w : World) : w.telling [] = w := by
  simp [telling]

theorem telling_append (w : World) (es fs : List Event) :
    (w.telling es).telling fs = w.telling (es ++ fs) := by
  simp [telling]

/-- The world with more notices. -/
def noting (w : World) (notices : List Notice) : World :=
  w.telling (notices.map .notice)

@[simp] theorem noting_files (w : World) (notices : List Notice) :
    (w.noting notices).files = w.files := rfl

@[simp] theorem noting_parsers (w : World) (notices : List Notice) :
    (w.noting notices).parsers = w.parsers := rfl

theorem noting_nil (w : World) : w.noting [] = w :=
  w.telling_nil

theorem noting_append (w : World) (ns ms : List Notice) :
    (w.noting ns).noting ms = w.noting (ns ++ ms) := by
  rw [noting, noting, noting, telling_append, List.map_append]

end World

namespace Job

theorem on_notice (n : Notice) (w : World) : (notice n).on w = (.ok (), w.noting [n]) := rfl

theorem on_noticeAll (ns : List Notice) (w : World) :
    (noticeAll ns).on w = (.ok (), w.noting ns) := by
  induction ns generalizing w with
  | nil => rw [noticeAll, on_pure, World.noting_nil]
  | cons n ns ih =>
    rw [noticeAll, on_bind_ok (on_notice n w), ih, World.noting_append, List.singleton_append]

/-- The notices of an outline are made whether or not it fails. -/
theorem on_ofOutline {α : Type} (x : Logged MissingBase α) (w : World) :
    (ofOutline x).on w =
      (match x.outcome with
        | .ok a => .ok a
        | .error _ => .error .missingBase, w.noting x.notices) := by
  rw [ofOutline, on_bind_ok (on_noticeAll x.notices w)]
  cases x.outcome <;> rfl

end Job

/-! ## Printing -/

/-- A raw text without lone surrogates. -/
def RawText.IsText (t : RawText) : Prop :=
  ∀ symbol ∈ t, ∃ c, symbol = .char c

namespace RawText

theorem isText_ofString (s : String) : IsText (ofString s) := by
  intro symbol h
  obtain ⟨c, -, rfl⟩ := List.mem_map.mp h
  exact ⟨c, rfl⟩

theorem isText_append {s t : RawText} : IsText (s ++ t) ↔ IsText s ∧ IsText t :=
  List.forall_mem_append

theorem chars?_map_char (cs : List Char) : chars? (cs.map .char) = some cs := by
  induction cs with
  | nil => rfl
  | cons c cs ih => simp [chars?, Symbol.char?, ih]

@[simp] theorem toString?_ofString (s : String) : toString? (ofString s) = some s := by
  rw [toString?, ofString, chars?_map_char, Option.map_some, String.ofList_toList]

/-- A raw text is a text exactly if it is the raw text of one. -/
theorem isText_iff {t : RawText} : IsText t ↔ ∃ s : String, t = ofString s := by
  constructor
  · intro h
    induction t with
    | nil => exact ⟨"", rfl⟩
    | cons symbol t ih =>
      obtain ⟨⟨c, rfl⟩, ht⟩ := List.forall_mem_cons.mp h
      obtain ⟨s, rfl⟩ := ih ht
      exact ⟨String.ofList (c :: s.toList), by simp [ofString]⟩
  · rintro ⟨s, rfl⟩
    exact isText_ofString s

theorem eq_map_of_chars? {t : RawText} {cs : List Char} (h : chars? t = some cs) :
    t = cs.map .char := by
  induction t generalizing cs with
  | nil =>
    cases h
    rfl
  | cons symbol rest ih =>
    cases symbol with
    | half index => cases h
    | char c =>
      obtain ⟨ds, hds, hcs⟩ := Option.bind_eq_some_iff.mp
        (by simpa [chars?, Symbol.char?] using h)
      rw [← Option.some.inj hcs, List.map_cons, ← ih hds]

/-- A raw text that is a string is the raw text of the string. -/
theorem eq_ofString {t : RawText} {s : String} (h : toString? t = some s) : t = ofString s := by
  obtain ⟨cs, hcs, rfl⟩ := Option.map_eq_some_iff.mp h
  rw [ofString, String.toList_ofList]
  exact eq_map_of_chars? hcs

theorem isText_releaseCode (held : List Char) : IsText (Text.releaseCode held) := by
  intro symbol h
  obtain ⟨c, -, rfl⟩ := List.mem_map.mp h
  exact ⟨c, rfl⟩

/-- Dropping terminal codes brings in no lone surrogates. -/
theorem IsText.dropCodesAfter {t : RawText} (h : IsText t) (held : List Char) :
    IsText (Text.dropCodesAfter held t) := by
  induction t generalizing held with
  | nil => exact isText_releaseCode held
  | cons symbol t ih =>
    obtain ⟨⟨c, rfl⟩, ht⟩ := List.forall_mem_cons.mp h
    rw [Text.dropCodesAfter]
    split
    · exact ih ht []
    split
    · exact ih ht _
    split
    · exact isText_append.mpr ⟨isText_releaseCode held, ih ht _⟩
    · refine isText_append.mpr ⟨isText_releaseCode held, List.forall_mem_cons.mpr ⟨⟨c, rfl⟩, ?_⟩⟩
      exact ih ht []

end RawText

namespace Job

/-- **Printing a text succeeds** and tells what is left of it without terminal codes. -/
theorem on_print {text : RawText} (h : text.IsText) (w : World) :
    ∃ s, (print text).on w = (.ok (), w.telling [.output s]) := by
  obtain ⟨s, hs⟩ := RawText.isText_iff.mp (h.dropCodesAfter [])
  refine ⟨s, ?_⟩
  rw [print, Text.dropCodes, hs, RawText.toString?_ofString]
  rfl

/-- Writing a text. -/
theorem on_write (w : World) (p : Path) (text : String) :
    (write p text).on w =
      match w.files.write p (Text.Utf8.encode text) with
      | .ok next => (.ok (), { w with files := next })
      | .error fault => (.error (.access (.file fault)), w) := by
  rw [write, RawText.toString?_ofString]
  simp only [writeBytes]
  rw [on_bind_ok (on_files w)]
  cases w.files.write p (Text.Utf8.encode text) <;> rfl

/-- What succeeds in printing tells the text without its terminal codes. -/
theorem print_eq_ok {text : RawText} {w next : World} (h : (print text).on w = (.ok (), next)) :
    ∃ s : String, Text.dropCodes text = RawText.ofString s ∧ next = w.telling [.output s] := by
  unfold print at h
  split at h
  · rename_i s hs
    exact ⟨s, RawText.eq_ofString hs, (Prod.mk.inj h).2.symm⟩
  · cases h

/-- A job that succeeds and does nothing but tell. -/
def Speaks (t : Job Unit) : Prop :=
  ∀ w, ∃ events, t.on w = (.ok (), w.telling events)

theorem speaks_pure : Speaks (pure ()) :=
  fun w => ⟨[], by rw [on_pure, w.telling_nil]⟩

theorem Speaks.bind {t : Job Unit} {f : Unit → Job Unit} (ht : t.Speaks) (hf : (f ()).Speaks) :
    (t >>= f).Speaks := by
  intro w
  obtain ⟨es, hes⟩ := ht w
  obtain ⟨fs, hfs⟩ := hf (w.telling es)
  exact ⟨es ++ fs, by rw [on_bind_ok hes, hfs, World.telling_append]⟩

theorem speaks_print {text : RawText} (h : text.IsText) : (print text).Speaks := by
  intro w
  obtain ⟨s, hs⟩ := on_print h w
  exact ⟨_, hs⟩

theorem speaks_printLine (s : String) : (printLine s).Speaks :=
  speaks_print (RawText.isText_append.mpr
    ⟨RawText.isText_ofString s, List.forall_mem_singleton.mpr ⟨'\n', rfl⟩⟩)

theorem speaks_printLines (lines : List String) :
    (printLines (lines.map RawText.ofString)).Speaks := by
  induction lines with
  | nil => exact speaks_pure
  | cons line lines ih => exact .bind (speaks_printLine line) ih

theorem speaks_complain (line : String) : (complain line).Speaks := by
  intro w
  obtain ⟨s, hs⟩ :=
    RawText.isText_iff.mp ((RawText.isText_ofString (line ++ "\n")).dropCodesAfter [])
  refine ⟨[.complaint s], ?_⟩
  rw [complain, Text.dropCodes, hs, RawText.toString?_ofString]
  rfl

end Job

/-! ## The diagram of a file -/

variable (host : Host)

/-- The parser that sources are read with: the one loaded before, or a new one. -/
def parserFor (w : World) : Except String Parser :=
  match w.parsers.lookup defaultLanguage with
  | some parser => .ok parser
  | none => host.pack.load (grammarOf defaultLanguage)

/-- The world in which the front end of sources has been found. -/
def World.withFrontEnd (w : World) : World :=
  { w with
    frontEnds :=
      match w.frontEnds.lookup defaultLanguage with
      | some _ => w.frontEnds
      | none => (defaultLanguage, ⟨defaultLanguage, supportedExtensions⟩) :: w.frontEnds }

/-- The world in which sources can be read: their front end has been found, and their parser is
loaded, if it can be. -/
def World.withParser (w : World) : World :=
  match w.parsers.lookup defaultLanguage with
  | some _ => w.withFrontEnd
  | none =>
    match host.pack.load (grammarOf defaultLanguage) with
    | .ok parser =>
      { w.withFrontEnd.noting [.parserLoaded defaultLanguage (grammarOf defaultLanguage)] with
        parsers := (defaultLanguage, parser) :: w.parsers }
    | .error _ => w.withFrontEnd

theorem World.withParser_files (w : World) : (w.withParser host).files = w.files := by
  unfold withParser
  split
  · rfl
  · split <;> rfl

theorem World.withParser_withFiles (w : World) (fs : Files) :
    withParser host { w with files := fs } = { w.withParser host with files := fs } := by
  unfold withParser
  simp only
  split
  · rfl
  · split <;> rfl

/-- The parser of sources does not change by being loaded. -/
theorem parserFor_withParser {w : World} {parser : Parser} (h : parserFor host w = .ok parser) :
    parserFor host (w.withParser host) = .ok parser := by
  unfold parserFor World.withParser at *
  cases hlookup : w.parsers.lookup defaultLanguage with
  | some loaded => simpa [hlookup, World.withFrontEnd] using h
  | none =>
    simp only [hlookup] at h
    simp [h]

theorem normalizeLanguage_default : normalizeLanguage defaultLanguage = defaultLanguage := by
  decide +kernel

theorem frontEnd_default :
    frontEnd defaultLanguage = .ok ⟨defaultLanguage, supportedExtensions⟩ := by
  rw [frontEnd, normalizeLanguage_default, if_pos rfl]

/-- The front end of sources is always found. -/
theorem findFrontEnd_on (w : World) :
    ∃ found, (findFrontEnd defaultLanguage).on w = (.ok found, w.withFrontEnd) := by
  have hmake : (Job.ofError (frontEnd defaultLanguage)).on w =
      (.ok ⟨defaultLanguage, supportedExtensions⟩, w) := by
    rw [frontEnd_default]
    rfl
  rw [findFrontEnd, Job.on_makeOnce, World.withFrontEnd, hmake]
  simp only [frontEndShelf]
  cases w.frontEnds.lookup defaultLanguage with
  | some found => exact ⟨found, rfl⟩
  | none => exact ⟨_, rfl⟩

theorem loadParser_on (w : World) :
    (loadParser host defaultLanguage).on w.withFrontEnd =
      match parserFor host w with
      | .ok parser => (.ok parser, w.withParser host)
      | .error reason =>
        (.error (.reported (.grammarUnavailable defaultLanguage reason)), w.withParser host) := by
  rw [loadParser, Job.on_makeOnce, parserFor, World.withParser]
  simp only [parserShelf, newParser]
  have hparsers : w.withFrontEnd.parsers = w.parsers := rfl
  rw [hparsers]
  cases w.parsers.lookup defaultLanguage with
  | some parser => rfl
  | none => cases host.pack.load (grammarOf defaultLanguage) <;> rfl

/-- There is only one language. -/
theorem languageOf?_eq (p : Path) :
    languageOf? p = none ∨ languageOf? p = some defaultLanguage := by
  unfold languageOf? languageOfExtension
  rw [List.lookup_cons]
  split
  · exact .inr rfl
  · exact .inl rfl

/-- What the outline of the text of a file gives. -/
def fileOutline (parser : Parser) (p : Path) (text : String) : Logged MissingBase Declaration :=
  Syntax.outline (Text.Utf8.encode text) (parser (Text.Utf8.encode text)) p.toText

theorem Source.bytes?_text (text : String) :
    (Source.text text).bytes? = some (Text.Utf8.encode text) := by
  rw [bytes?, RawText.toString?_ofString, Option.map_some]

theorem Source.on_encode {source : Source} {content : Bytes} (h : source.bytes? = some content)
    (w : World) : source.encode.on w = (.ok content, w) := by
  rw [encode, h]
  rfl

/-- The declarations of a source that has bytes, by the parser. -/
theorem parseSource_of_path {source : Source} {content : Bytes} (h : source.bytes? = some content)
    (filePath : String) (w : World) :
    (parseSource host source defaultLanguage filePath).on w =
      match parserFor host w with
      | .ok parser =>
        (Job.ofOutline (Syntax.outline content (parser content) filePath)).on (w.withParser host)
      | .error reason =>
        (.error (.reported (.grammarUnavailable defaultLanguage reason)), w.withParser host) := by
  obtain ⟨found, hfront⟩ := findFrontEnd_on w
  rw [parseSource, normalizeLanguage_default, Job.on_bind_ok hfront,
    Job.on_bind_ok (Source.on_encode h _)]
  have hload := loadParser_on host w
  cases hparser : parserFor host w with
  | ok parser =>
    rw [hparser] at hload
    rw [Job.on_bind_ok hload]
  | error reason =>
    rw [hparser] at hload
    rw [Job.on_bind_error hload]

theorem parseSource_on (p : Path) (text : String) (w : World) :
    (parseSource host (.text text) defaultLanguage p.toText).on w =
      match parserFor host w with
      | .ok parser => (Job.ofOutline (fileOutline parser p text)).on (w.withParser host)
      | .error reason =>
        (.error (.reported (.grammarUnavailable defaultLanguage reason)), w.withParser host) :=
  parseSource_of_path host (Source.bytes?_text text) p.toText w

theorem readText_on (p : Path) (w : World) :
    (readText p).on w =
      match w.files.read p with
      | .error fault => (.error (.access (.file fault)), w)
      | .ok content =>
        match Text.Utf8.decodeFile content with
        | .ok text => (.ok text, w)
        | .error fault => (.error (.access (.undecodable fault)), w) := by
  have hread := Job.on_read p w
  rw [readText]
  cases hcontent : w.files.read p with
  | error fault =>
    rw [hcontent] at hread
    rw [Job.on_bind_error hread]
  | ok content =>
    rw [hcontent] at hread
    rw [Job.on_bind_ok hread]
    simp only
    cases Text.Utf8.decodeFile content <;> rfl

/-- A file is read like its text, in the language that its name tells. -/
theorem parseFile_of_language {p : Path} {language : String} (hp : languageOf? p = some language) :
    parseFile host p = (readText p >>= fun text =>
      parseSource host (.text text) language p.toText) := by
  delta parseFile
  rw [hp]

theorem parseFile_of_none {p : Path} (hp : languageOf? p = none) :
    parseFile host p = Job.fail (.unsupportedLanguage p.toText supportedExtensions) := by
  delta parseFile
  rw [hp]

/-- **The diagram of a file**, by the content of the file and the parser. -/
theorem generateFromFile_on {p : Path} (hp : languageOf? p = some defaultLanguage) (style : Style)
    (w : World) :
    (generateFromFile host p style).on w =
      match w.files.read p with
      | .error fault => (.error (.access (.file fault)), w)
      | .ok content =>
        match Text.Utf8.decodeFile content with
        | .error fault => (.error (.access (.undecodable fault)), w)
        | .ok text =>
          match parserFor host w with
          | .error reason =>
            (.error (.reported (.grammarUnavailable defaultLanguage reason)), w.withParser host)
          | .ok parser =>
            (match (fileOutline parser p text).outcome with
              | .ok unit => .ok (diagram style unit)
              | .error _ => .error .missingBase,
              (w.withParser host).noting (fileOutline parser p text).notices) := by
  have htext := readText_on p w
  have hdiagram : (generateFromFile host p style).on w =
      (((parseFile host p).on w).1.map (diagram style), ((parseFile host p).on w).2) := by
    rw [generateFromFile, ← map_eq_pure_bind, Job.on_map]
  rw [hdiagram, parseFile_of_language host hp]
  cases hcontent : w.files.read p with
  | error fault =>
    rw [hcontent] at htext
    rw [Job.on_bind_error htext]
    rfl
  | ok content =>
    simp only [hcontent] at htext ⊢
    cases hdecode : Text.Utf8.decodeFile content with
    | error fault =>
      rw [hdecode] at htext
      rw [Job.on_bind_error htext]
      rfl
    | ok text =>
      rw [hdecode] at htext
      rw [Job.on_bind_ok htext, parseSource_on]
      cases parserFor host w with
      | error reason => rfl
      | ok parser =>
        simp only [Job.on_ofOutline]
        cases (fileOutline parser p text).outcome <;> rfl

/-- The diagram of a file, where a file that cannot be read is a result. -/
theorem attempt_generateFromFile_on {p : Path} (hp : languageOf? p = some defaultLanguage)
    (style : Style) (w : World) :
    (Job.attempt (generateFromFile host p style)).on w =
      match w.files.read p with
      | .error .nullCharacter => (.error (.access (.file .nullCharacter)), w)
      | .error fault => (.ok (.error (.file fault)), w)
      | .ok content =>
        match Text.Utf8.decodeFile content with
        | .error fault => (.ok (.error (.undecodable fault)), w)
        | .ok text =>
          match parserFor host w with
          | .error reason =>
            (.error (.reported (.grammarUnavailable defaultLanguage reason)), w.withParser host)
          | .ok parser =>
            (match (fileOutline parser p text).outcome with
              | .ok unit => .ok (.ok (diagram style unit))
              | .error _ => .error .missingBase,
              (w.withParser host).noting (fileOutline parser p text).notices) := by
  rw [Job.on_attempt, generateFromFile_on host hp]
  cases w.files.read p with
  | error fault => cases fault <;> rfl
  | ok content =>
    simp only
    cases Text.Utf8.decodeFile content with
    | error fault => rfl
    | ok text =>
      simp only
      cases parserFor host w with
      | error reason => rfl
      | ok parser =>
        simp only
        cases (fileOutline parser p text).outcome <;> rfl

end ClassChart
