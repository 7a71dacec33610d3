import ClassChart.Proofs.JobRuns
import ClassChart.Proofs.Walk
import Mathlib.Data.List.Induction

/-!
# What is kept does not show

Front ends and parsers are kept for the names that they were asked for by, and parsers are asked for
by names as they are given as well as by proper names. In any sequence of calls, what is kept for a
name is what would be made for it now. So a call has the result or failure that it has when nothing
is kept, and makes the same notices, except that a parser is noted only when it is loaded for a name
for the first time.

## Main definitions

* `Call`, `Call.perform`: the calls of the library, and how they are performed
* `Report`, `Call.report`: what a call shows
* `Call.loaded?`: the name that a call loads a parser for
* `World.IsFaithful`: what is kept is what would be made
* `World.Follows`, `Job.Steady`: jobs that do the same whatever is kept
* `World.IsAfter`: what is kept and noted after some calls

## Main results

* `Call.steady`: every call does the same whatever is kept
* `worldAfter_isAfter`: what is kept after a sequence of calls
* `registry_transparent`: calls show the same after any others
-/

namespace ClassChart

open Text (Bytes)

/-! ## Calls -/

/-- A call of the library. -/
inductive Call where
  | findFrontEnd (language : String)
  | loadParser (language : String)
  | parseSource (source : Source) (language filePath : String)
  | parseFile (p : Path)
  | generateFromSource (source : Source) (language : String) (style : Style)
  | generateFromFile (p : Path) (style : Style)

/-- The result of a call. -/
inductive Answer where
  | frontEnd (found : FrontEnd)
  | parser (parser : Parser)
  | unit (declaration : Declaration)
  | text (diagram : RawText)

/-- Performs a call. -/
def Call.perform (host : Host) : Call → Job Answer
  | .findFrontEnd language => .frontEnd <$> ClassChart.findFrontEnd language
  | .loadParser language => .parser <$> ClassChart.loadParser host language
  | .parseSource source language filePath =>
    .unit <$> ClassChart.parseSource host source language filePath
  | .parseFile p => .unit <$> ClassChart.parseFile host p
  | .generateFromSource source language style =>
    .text <$> ClassChart.generateFromSource host source language style
  | .generateFromFile p style => .text <$> ClassChart.generateFromFile host p style

/-- What a call shows: its result or failure, and the notices that it makes. -/
structure Report where
  outcome : Except Failure Answer
  notices : List Notice

/-- What a call shows on a world. -/
def Call.report (host : Host) (w : World) (call : Call) : Report :=
  let run := (call.perform host).on { w with events := [] }
  ⟨run.1, run.2.notices⟩

/-- The world after some calls. A call that fails does not keep the next from being made. -/
def worldAfter (host : Host) (calls : List Call) (w : World) : World :=
  calls.foldl (fun w call => ((call.perform host).on w).2) w

/-- Whether a notice tells that a parser was loaded. -/
def Notice.isLoad : Notice → Bool
  | .parserLoaded .. => true
  | _ => false

/-- The notice about a parser that is loaded for a name. -/
def loadNotice (language : String) : Notice :=
  .parserLoaded language (grammarOf language)

/-! ## What a call loads -/

/-- A name, if there is a parser for it. -/
def Host.loadable? (host : Host) (language : String) : Option String :=
  if (host.pack.load (grammarOf language)).isOk then some language else none

/-- The name that a parser is loaded for to read in a language. -/
def Host.loadedFor? (host : Host) (language : String) : Option String :=
  if (frontEnd (normalizeLanguage language)).isOk then host.loadable? (normalizeLanguage language)
  else none

/-- The name that a parser is loaded for to read a source. A text is encoded first. -/
def Host.loadedForSource? (host : Host) (source : Source) (language : String) : Option String :=
  if source.bytes?.isSome then host.loadedFor? language else none

/-- The text that is read from a file. -/
def Files.textAt (fs : Files) (p : Path) : Except AccessFault String :=
  match fs.read p with
  | .error fault => .error (.file fault)
  | .ok content => (Text.Utf8.decodeFile content).mapError .undecodable

/-- The name that a parser is loaded for to read a file. The text of the file is read first. -/
def Host.loadedForFile? (host : Host) (fs : Files) (p : Path) : Option String :=
  (languageOf? p).bind fun language =>
    if (fs.textAt p).isOk then host.loadedFor? language else none

/-- The name that a call loads a parser for, if it comes to that and there is one. -/
def Call.loaded? (host : Host) (fs : Files) : Call → Option String
  | .findFrontEnd _ => none
  | .loadParser language => host.loadable? language
  | .parseSource source language _ | .generateFromSource source language _ =>
    host.loadedForSource? source language
  | .parseFile p | .generateFromFile p _ => host.loadedForFile? fs p

/-! ## Keeping what would be made -/

/-- What is kept for names is what is made for them. -/
def IsKeptFrom {ε α : Type} (make : String → Except ε α) (kept : List (String × α)) : Prop :=
  ∀ name value, kept.lookup name = some value → make name = .ok value

namespace IsKeptFrom

variable {ε α : Type} {make : String → Except ε α} {kept : List (String × α)}

theorem nil : IsKeptFrom make [] := by
  intro name value h
  cases h

theorem cons (h : IsKeptFrom make kept) {name : String} {value : α}
    (hmake : make name = .ok value) : IsKeptFrom make ((name, value) :: kept) := by
  intro other found hfound
  rw [List.lookup_cons] at hfound
  split at hfound
  · rename_i heq
    rw [beq_iff_eq.mp heq, hmake, ← Option.some.inj hfound]
  · exact h other found hfound

end IsKeptFrom

/-- What a world keeps is what would be made now. -/
structure World.IsFaithful (host : Host) (w : World) : Prop where
  frontEnds : IsKeptFrom frontEnd w.frontEnds
  parsers : IsKeptFrom (fun language => host.pack.load (grammarOf language)) w.parsers

/-- Whether a parser has been loaded for a name. -/
def World.knows (w : World) (language : String) : Bool :=
  (w.parsers.lookup language).isSome

/-- The notice about a parser that is loaded for a name for the first time. -/
def World.loadNotices (w : World) : Option String → List Notice
  | some language => if w.knows language then [] else [loadNotice language]
  | none => []

/-- The next world differs from a world by what is told and kept: a parser for a name, if it was not
there before, and notices that have nothing to do with it. -/
structure World.Follows (host : Host) (loaded? : Option String) (others : List Notice)
    (w next : World) : Prop where
  files : next.files = w.files
  faithful : next.IsFaithful host
  knows : ∀ language, next.knows language = true ↔ w.knows language = true ∨ loaded? = some language
  events : next.events = w.events ++ (w.loadNotices loaded? ++ others).map .notice

/-- A job does the same on all worlds with the files, whatever they keep. -/
def Job.Steady {α : Type} (host : Host) (fs : Files) (loaded? : Option String) (t : Job α) : Prop :=
  ∃ outcome others, (∀ n ∈ others, n.isLoad = false) ∧
    ∀ w, w.IsFaithful host → w.files = fs →
      ∃ next, t.on w = (outcome, next) ∧ World.Follows host loaded? others w next

variable {host : Host} {fs : Files} {w mid next : World} {loaded? : Option String}
  {others : List Notice}

namespace World

theorem follows_refl (h : w.IsFaithful host) : Follows host none [] w w where
  files := rfl
  faithful := h
  knows language := by simp
  events := by simp [loadNotices]

/-- What follows a world follows every other one with the same files, told the same, for which the
same parsers were loaded. -/
theorem Follows.of_eq (h : Follows host loaded? others mid next) (hfiles : mid.files = w.files)
    (hknows : ∀ language, mid.knows language = w.knows language) (hevents : mid.events = w.events) :
    Follows host loaded? others w next := by
  have hnotices : mid.loadNotices loaded? = w.loadNotices loaded? := by
    cases loaded? with
    | none => rfl
    | some language => simp only [loadNotices, hknows]
  refine ⟨h.files.trans hfiles, h.faithful, ?_, ?_⟩
  · intro language
    rw [h.knows, hknows]
  · rw [h.events, hevents, hnotices]

/-- What does not show can be done before. -/
theorem Follows.after (h : Follows host loaded? others mid next)
    (hmid : Follows host none [] w mid) : Follows host loaded? others w next := by
  refine h.of_eq hmid.files ?_ ?_
  · intro language
    rw [Bool.eq_iff_iff, hmid.knows]
    simp
  · rw [hmid.events]
    simp [loadNotices]

/-- More notices can be made afterwards. -/
theorem Follows.noting (h : Follows host loaded? [] w next) (ns : List Notice) :
    Follows host loaded? ns w (next.noting ns) where
  files := h.files
  faithful := ⟨h.faithful.frontEnds, h.faithful.parsers⟩
  knows := h.knows
  events := by
    rw [World.noting, telling, h.events, List.append_nil, List.map_append, List.append_assoc]

end World

namespace Job.Steady

variable {α β : Type} {t : Job α}

theorem map (h : t.Steady host fs loaded?) (f : α → β) : (f <$> t).Steady host fs loaded? := by
  obtain ⟨outcome, others, hothers, hrun⟩ := h
  refine ⟨outcome.map f, others, hothers, ?_⟩
  intro w hw hfiles
  obtain ⟨next, hnext, hfollows⟩ := hrun w hw hfiles
  exact ⟨next, by rw [Job.on_map, hnext], hfollows⟩

/-- A job that makes no notices of its own is steady if its outcome does not depend on what is
kept. -/
theorem of_follows {outcome : Except Failure α}
    (h : ∀ w, w.IsFaithful host → w.files = fs →
      ∃ next, t.on w = (outcome, next) ∧ World.Follows host loaded? [] w next) :
    t.Steady host fs loaded? :=
  ⟨outcome, [], List.forall_mem_nil _, h⟩

/-- A job is steady if it changes nothing and its outcome depends on the files alone. -/
theorem of_unchanged {outcome : Except Failure α} (h : ∀ w, w.files = fs → t.on w = (outcome, w)) :
    t.Steady host fs none :=
  of_follows fun w hw hfiles => ⟨w, h w hfiles, World.follows_refl hw⟩

end Job.Steady

/-! ## Front ends and parsers -/

/-- A front end is found as if none was kept. -/
theorem findFrontEnd_follows (hw : w.IsFaithful host) (language : String) :
    ∃ next, (findFrontEnd language).on w = ((frontEnd language).mapError .reported, next) ∧
      World.Follows host none [] w next := by
  rw [findFrontEnd, Job.on_makeOnce]
  simp only [frontEndShelf]
  cases hkept : w.frontEnds.lookup language with
  | some found =>
    rw [hw.frontEnds language found hkept]
    exact ⟨w, rfl, World.follows_refl hw⟩
  | none =>
    cases hmake : frontEnd language with
    | error e => exact ⟨w, rfl, World.follows_refl hw⟩
    | ok found =>
      refine ⟨{ w with frontEnds := (language, found) :: w.frontEnds }, rfl, ?_⟩
      -- the shelf of parsers is as it was
      have hkeep : World.IsFaithful host { w with frontEnds := (language, found) :: w.frontEnds } :=
        ⟨hw.frontEnds.cons hmake, hw.parsers⟩
      exact (World.follows_refl hkeep).of_eq rfl (fun _ => rfl) rfl

theorem World.loadNotices_of_knows {language : String} (h : w.knows language = true) :
    w.loadNotices (some language) = [] :=
  if_pos h

/-- A parser is loaded as if none was kept, but for the notice. -/
theorem loadParser_follows (hw : w.IsFaithful host) (language : String) :
    ∃ next, (loadParser host language).on w =
        ((host.pack.load (grammarOf language)).mapError
          (.reported <| .grammarUnavailable language ·), next) ∧
      World.Follows host (host.loadable? language) [] w next := by
  rw [loadParser, Job.on_makeOnce]
  simp only [parserShelf, newParser, Host.loadable?]
  cases hkept : w.parsers.lookup language with
  | some parser =>
    -- what is kept for the name was loaded, so nothing is new
    have hknown : w.knows language = true := by simp [World.knows, hkept]
    have hload : host.pack.load (grammarOf language) = .ok parser := hw.parsers _ _ hkept
    rw [hload]
    refine ⟨w, rfl, rfl, hw, ?_, ?_⟩
    · intro other
      constructor
      · exact .inl
      · rintro (hother | hother)
        · exact hother
        · rwa [← Option.some.inj hother]
    · simp [Except.isOk, Except.toBool, World.loadNotices_of_knows hknown]
  | none =>
    have hunknown : w.knows language = false := by simp [World.knows, hkept]
    cases hload : host.pack.load (grammarOf language) with
    | error reason => exact ⟨w, rfl, World.follows_refl hw⟩
    | ok parser =>
      refine ⟨_, rfl, rfl, ⟨hw.frontEnds, hw.parsers.cons hload⟩, ?_, ?_⟩
      · intro other
        simp only [World.knows, List.lookup_cons]
        by_cases hother : other = language
        · simp [hother, Except.isOk, Except.toBool]
        · simp [Ne.symm hother, beq_eq_false_iff_ne.mpr hother, Except.isOk, Except.toBool]
      · simp [World.loadNotices, loadNotice, hunknown, Except.isOk, Except.toBool]

/-! ## Outlines load nothing -/

/-- No notice is about a parser. -/
def Logged.LoadsNothing {ε α : Type} (x : Logged ε α) : Prop :=
  ∀ n ∈ x.notices, n.isLoad = false

namespace Logged.LoadsNothing

variable {ε α β : Type}

theorem pure (a : α) : (Pure.pure a : Logged ε α).LoadsNothing :=
  List.forall_mem_nil _

theorem bind {x : Logged ε α} {f : α → Logged ε β} (hx : x.LoadsNothing)
    (hf : ∀ a, (f a).LoadsNothing) : (x >>= f).LoadsNothing := by
  cases h : x.outcome with
  | ok a =>
    rw [LoadsNothing, Logged.bind_notices h]
    exact List.forall_mem_append.mpr ⟨hx, hf a⟩
  | error e =>
    rw [LoadsNothing, Logged.bind_def, Logged.bind, h]
    exact hx

end Logged.LoadsNothing

namespace Syntax

variable (source : Bytes)

open Logged (LoadsNothing)

theorem loadsNothing_readNode {inside : Outline (List Declaration)} (h : inside.LoadsNothing)
    (n : Node) : (readNode source inside n).LoadsNothing := by
  obtain ⟨info, children⟩ := n
  rw [readNode]
  split
  · exact h
  · exact h
  · split
    · refine .bind (List.forall_mem_nil _) fun head => ?_
      exact .bind h fun members => .pure _
    · exact .pure _
  · exact .bind (List.forall_mem_singleton.mpr rfl) fun _ => .pure _
  · exact .pure _

theorem loadsNothing_walk (nodes : List Node) : (walk source nodes).LoadsNothing := by
  fun_induction walk source nodes with
  | case1 => exact .pure _
  | case2 n rest ihInner ihRest =>
    exact .bind (loadsNothing_readNode source ihInner n) fun found =>
      .bind ihRest fun others => .pure _

/-- An outline notes nothing about parsers, whether or not it succeeds. -/
theorem loadsNothing_outline (tree : SyntaxTree) (filePath : String) :
    (outline source tree filePath).LoadsNothing := by
  -- erasing namespaces changes no notices, and leaves the plain walk
  have hwalk : Declaration.erasedAll <$> declarations source tree.root.children (pure []) =
      walk source tree.root.children := by
    simp [erasedAll_declarations, Declaration.erasedAll]
  rw [LoadsNothing, outline_notices, ← Logged.map_notices Declaration.erasedAll, hwalk]
  refine List.forall_mem_append.mpr ⟨?_, loadsNothing_walk source _⟩
  split
  · exact List.forall_mem_singleton.mpr rfl
  · exact List.forall_mem_nil _

end Syntax

/-! ## Sources and files -/

/-- Finding a front end leaves the parsers as they are. -/
theorem loadParser_after_findFrontEnd (hw : w.IsFaithful host) {name : String} {found : FrontEnd}
    (hfront : frontEnd name = .ok found) :
    ∃ mid next, (findFrontEnd name).on w = (.ok found, mid) ∧
      (loadParser host name).on mid = ((host.pack.load (grammarOf name)).mapError
        (.reported <| .grammarUnavailable name ·), next) ∧
      World.Follows host (host.loadable? name) [] w next := by
  obtain ⟨mid, hfound, hmid⟩ := findFrontEnd_follows hw name
  obtain ⟨next, hloaded, hnext⟩ := loadParser_follows hmid.faithful name
  rw [hfront] at hfound
  exact ⟨mid, next, hfound, hloaded, hnext.after hmid⟩

/-- Where there is no front end, a job that looks for it first ends with that. -/
theorem Job.Steady.of_frontEnd_error {α : Type} {name : String} {e : Error}
    (h : frontEnd name = .error e) (rest : FrontEnd → Job α) :
    (findFrontEnd name >>= rest).Steady host fs none := by
  apply Job.Steady.of_follows
  intro w hw _
  obtain ⟨next, hfound, hnext⟩ := findFrontEnd_follows hw name
  rw [h] at hfound
  exact ⟨next, Job.on_bind_error hfound, hnext⟩

/-- A source without bytes has no declarations, and nothing is loaded for it. -/
theorem parseSource_steady_of_none {source : Source} (h : source.bytes? = none)
    (language filePath : String) :
    (parseSource host source language filePath).Steady host fs none := by
  have hencode (w : World) : source.encode.on w = (.error .unencodable, w) := by
    rw [Source.encode, h]
    rfl
  unfold parseSource
  generalize normalizeLanguage language = name
  cases hfront : frontEnd name with
  | error e => exact .of_frontEnd_error hfront _
  | ok found =>
    -- the front end is kept all the same
    apply Job.Steady.of_follows
    intro w hw _
    obtain ⟨next, hfound, hnext⟩ := findFrontEnd_follows hw name
    rw [hfront] at hfound
    exact ⟨next, (Job.on_bind_ok hfound).trans (Job.on_bind_error (hencode next)), hnext⟩

/-- The declarations of a source that has bytes are the same whatever is kept. -/
theorem parseSource_steady_of_bytes {source : Source} {content : Bytes}
    (h : source.bytes? = some content) (language filePath : String) :
    (parseSource host source language filePath).Steady host fs (host.loadedFor? language) := by
  have hencode := Source.on_encode h
  rw [Host.loadedFor?]
  unfold parseSource
  generalize normalizeLanguage language = name
  cases hfront : frontEnd name with
  | error e => exact .of_frontEnd_error hfront _
  | ok found =>
    cases hpack : host.pack.load (grammarOf name) with
    | error reason =>
      apply Job.Steady.of_follows
      intro w hw _
      obtain ⟨mid, next, hfound, hloaded, hnext⟩ := loadParser_after_findFrontEnd hw hfront
      rw [hpack] at hloaded
      refine ⟨next, ?_, hnext⟩
      rw [Job.on_bind_ok hfound, Job.on_bind_ok (hencode mid), Job.on_bind_error hloaded]
    | ok parser =>
      -- the outline works on the tree alone, and what it notes is noted last
      have hquiet := Syntax.loadsNothing_outline content (parser content) filePath
      refine ⟨(Syntax.outline content (parser content) filePath).outcome.mapError
        fun _ => .missingBase, _, hquiet, ?_⟩
      intro w hw _
      obtain ⟨mid, next, hfound, hloaded, hnext⟩ := loadParser_after_findFrontEnd hw hfront
      rw [hpack] at hloaded
      refine ⟨_, ?_, hnext.noting _⟩
      rw [Job.on_bind_ok hfound, Job.on_bind_ok (hencode mid), Job.on_bind_ok hloaded,
        Job.on_ofOutline]
      cases (Syntax.outline content (parser content) filePath).outcome <;> rfl

theorem parseSource_steady (source : Source) (language filePath : String) :
    (parseSource host source language filePath).Steady host fs
      (host.loadedForSource? source language) := by
  rw [Host.loadedForSource?]
  cases h : source.bytes? with
  | none =>
    rw [Option.isSome_none, if_neg Bool.false_ne_true]
    exact parseSource_steady_of_none h language filePath
  | some content =>
    rw [Option.isSome_some, if_pos rfl]
    exact parseSource_steady_of_bytes h language filePath

theorem readText_eq (p : Path) (w : World) :
    (readText p).on w = ((w.files.textAt p).mapError .access, w) := by
  rw [readText_on, Files.textAt]
  cases w.files.read p with
  | error fault => rfl
  | ok content =>
    simp only
    cases Text.Utf8.decodeFile content <;> rfl

/-- The declarations of a file are the same whatever is kept. -/
theorem parseFile_steady (p : Path) :
    (parseFile host p).Steady host fs (host.loadedForFile? fs p) := by
  rw [Host.loadedForFile?]
  cases hp : languageOf? p with
  | none =>
    rw [parseFile_of_none host hp]
    exact .of_unchanged fun w _ => Job.on_fail _ w
  | some language =>
    rw [parseFile_of_language host hp, Option.bind_some]
    -- what the file has does not depend on what is kept
    have hread (w : World) (hfiles : w.files = fs) :
        (readText p).on w = ((fs.textAt p).mapError .access, w) := by
      rw [readText_eq, hfiles]
    cases htext : fs.textAt p with
    | error fault =>
      rw [htext] at hread
      exact .of_unchanged fun w hfiles => Job.on_bind_error (hread w hfiles)
    | ok text =>
      rw [htext] at hread
      have hok : (Except.ok text : Except AccessFault String).isOk = true := rfl
      rw [if_pos hok]
      obtain ⟨outcome, others, hothers, hrun⟩ :=
        parseSource_steady_of_bytes (Source.bytes?_text text) language p.toText
      refine ⟨outcome, others, hothers, ?_⟩
      intro w hw hfiles
      obtain ⟨next, hnext, hfollows⟩ := hrun w hw hfiles
      exact ⟨next, (Job.on_bind_ok (hread w hfiles)).trans hnext, hfollows⟩

/-- **Every call is steady**: it does the same whatever is kept, but for the notice about the parser
that it loads. -/
theorem Call.steady (call : Call) :
    (call.perform host).Steady host fs (call.loaded? host fs) := by
  cases call with
  | findFrontEnd language =>
    exact (Job.Steady.of_follows fun w hw _ => findFrontEnd_follows hw language).map _
  | loadParser language =>
    exact (Job.Steady.of_follows fun w hw _ => loadParser_follows hw language).map _
  | parseSource source language filePath =>
    exact (parseSource_steady source language filePath).map _
  | parseFile p => exact (parseFile_steady p).map _
  -- a diagram is drawn from declarations, without a look at the world
  | generateFromSource source language style =>
    have hdraw : ClassChart.generateFromSource host source language style =
        diagram style <$> ClassChart.parseSource host source language "" :=
      (map_eq_pure_bind _ _).symm
    rw [perform, hdraw]
    exact ((parseSource_steady source language "").map _).map _
  | generateFromFile p style =>
    have hdraw : ClassChart.generateFromFile host p style =
        diagram style <$> ClassChart.parseFile host p := (map_eq_pure_bind _ _).symm
    rw [perform, hdraw]
    exact ((parseFile_steady p).map _).map _

/-! ## Sequences of calls -/

/-- The notices after a call are those before it, the one about the parser that it loads, and its
own. -/
theorem World.Follows.notices (h : World.Follows host loaded? others w next) :
    next.notices = w.notices ++ (w.loadNotices loaded? ++ others) := by
  rw [World.notices, h.events, List.filterMap_append, List.filterMap_map]
  exact congrArg (w.notices ++ ·) List.filterMap_some

theorem World.isLoad_of_mem_loadNotices {n : Notice} (h : n ∈ w.loadNotices loaded?) :
    n.isLoad = true := by
  cases loaded? with
  | none => cases h
  | some language =>
    rw [World.loadNotices] at h
    split at h
    · cases h
    · rw [List.mem_singleton.mp h]
      rfl

/-- The notice about a parser is the only one about parsers. -/
theorem World.filter_isLoad (w : World) (loaded? : Option String)
    (hothers : ∀ n ∈ others, n.isLoad = false) :
    (w.loadNotices loaded? ++ others).filter (·.isLoad) = w.loadNotices loaded? := by
  rw [List.filter_append, List.filter_eq_self.mpr fun _ => World.isLoad_of_mem_loadNotices,
    List.filter_eq_nil_iff.mpr fun n hn => by simp [hothers n hn], List.append_nil]

theorem World.filter_not_isLoad (w : World) (loaded? : Option String)
    (hothers : ∀ n ∈ others, n.isLoad = false) :
    (w.loadNotices loaded? ++ others).filter (!·.isLoad) = others := by
  rw [List.filter_append,
    List.filter_eq_nil_iff.mpr fun n hn => by simp [World.isLoad_of_mem_loadNotices hn],
    List.filter_eq_self.mpr fun n hn => by simp [hothers n hn], List.nil_append]

/-- What a call shows, by what was loaded before. -/
theorem Call.report_eq (host : Host) (fs : Files) (call : Call) :
    ∃ outcome others, (∀ n ∈ others, n.isLoad = false) ∧
      ∀ w : World, w.IsFaithful host → w.files = fs →
        call.report host w = ⟨outcome, w.loadNotices (call.loaded? host fs) ++ others⟩ := by
  obtain ⟨outcome, others, hothers, hrun⟩ := call.steady
  refine ⟨outcome, others, hothers, ?_⟩
  intro w hw hfiles
  obtain ⟨next, hnext, hfollows⟩ := hrun { w with events := [] } ⟨hw.frontEnds, hw.parsers⟩ hfiles
  rw [Call.report, hnext, hfollows.notices]
  rfl

/-- What is kept, and what was noted about parsers, after some calls. -/
structure World.IsAfter (host : Host) (fs : Files) (calls : List Call) (w : World) : Prop where
  files : w.files = fs
  faithful : w.IsFaithful host
  knows : ∀ language, w.knows language = true ↔ language ∈ calls.filterMap (Call.loaded? host fs)
  loads : w.notices.filter (·.isLoad) =
    (calls.filterMap (Call.loaded? host fs)).eraseDups.map loadNotice

theorem World.isAfter_nil (host : Host) (fs : Files) :
    World.IsAfter host fs [] { files := fs } where
  files := rfl
  faithful := ⟨.nil, .nil⟩
  knows language := by simp [World.knows]
  loads := rfl

theorem eraseDups_concat (names : List String) (name : String) :
    (names ++ [name]).eraseDups = names.eraseDups ++ if name ∈ names then [] else [name] := by
  rw [List.eraseDups_append]
  by_cases h : name ∈ names <;> simp [List.removeAll, h, List.eraseDups_cons]

/-- One more call keeps what was kept, and adds its name if that is new. -/
theorem World.IsAfter.step {calls : List Call} (h : w.IsAfter host fs calls) (call : Call) :
    World.IsAfter host fs (calls ++ [call]) ((call.perform host).on w).2 := by
  obtain ⟨outcome, others, hothers, hrun⟩ := call.steady
  obtain ⟨next, hnext, hfollows⟩ := hrun w h.faithful h.files
  rw [hnext]
  refine ⟨hfollows.files.trans h.files, hfollows.faithful, ?_, ?_⟩
  · intro language
    rw [hfollows.knows, h.knows, List.filterMap_append, List.mem_append, List.mem_filterMap]
    simp
  · rw [hfollows.notices, List.filter_append, h.loads, w.filter_isLoad _ hothers,
      List.filterMap_append]
    cases hloaded : call.loaded? host fs with
    | none => simp [hloaded, World.loadNotices]
    | some language =>
      -- a name counts where it is first met, and there it is not yet known
      rw [List.filterMap_cons_some hloaded, List.filterMap_nil, eraseDups_concat, List.map_append,
        World.loadNotices]
      simp only [h.knows]
      split <;> rfl

/-- **What is kept after any sequence of calls.** -/
theorem worldAfter_isAfter (host : Host) (fs : Files) (calls : List Call) :
    World.IsAfter host fs calls (worldAfter host calls { files := fs }) := by
  -- on the calls from the end, as a call is made on what those before it left
  induction calls using List.reverseRecOn with
  | nil => exact World.isAfter_nil host fs
  | append_singleton calls call ih =>
    rw [worldAfter, List.foldl_append]
    exact ih.step call

/-! ## Only what can be loaded is loaded -/

theorem Host.exists_of_loadable? {language name : String}
    (h : host.loadable? language = some name) :
    ∃ parser, host.pack.load (grammarOf name) = .ok parser := by
  rw [Host.loadable?] at h
  split at h
  · rename_i hload
    rw [← Option.some.inj h]
    cases hpack : host.pack.load (grammarOf language) with
    | ok parser => exact ⟨parser, rfl⟩
    | error reason =>
      rw [hpack] at hload
      cases hload
  · cases h

theorem Host.exists_of_loadedFor? {language name : String}
    (h : host.loadedFor? language = some name) :
    ∃ parser, host.pack.load (grammarOf name) = .ok parser := by
  rw [Host.loadedFor?] at h
  split at h
  · exact Host.exists_of_loadable? h
  · cases h

theorem Host.exists_of_loadedForSource? {source : Source} {language name : String}
    (h : host.loadedForSource? source language = some name) :
    ∃ parser, host.pack.load (grammarOf name) = .ok parser := by
  rw [Host.loadedForSource?] at h
  split at h
  · exact Host.exists_of_loadedFor? h
  · cases h

theorem Host.exists_of_loadedForFile? {p : Path} {name : String}
    (h : host.loadedForFile? fs p = some name) :
    ∃ parser, host.pack.load (grammarOf name) = .ok parser := by
  obtain ⟨language, -, hlanguage⟩ := Option.bind_eq_some_iff.mp h
  split at hlanguage
  · exact Host.exists_of_loadedFor? hlanguage
  · cases hlanguage

theorem Call.exists_of_loaded? {call : Call} {name : String}
    (h : call.loaded? host fs = some name) :
    ∃ parser, host.pack.load (grammarOf name) = .ok parser := by
  cases call with
  | findFrontEnd language => cases h
  | loadParser language => exact Host.exists_of_loadable? h
  | parseSource | generateFromSource =>
    rw [Call.loaded?] at h
    exact Host.exists_of_loadedForSource? h
  | parseFile | generateFromFile =>
    rw [Call.loaded?] at h
    exact Host.exists_of_loadedForFile? h

/-- **What is kept does not show.** After any calls, on a world that kept nothing at first, a call
has the outcome that it has alone and makes the same notices, but for those about parsers. A parser
is noted by the first call that loads it for a name. So the notices about parsers are one for each
name that one was loaded for, in the order of the first times, and there are none about parsers that
cannot be loaded. -/
theorem registry_transparent (host : Host) (fs : Files) (before : List Call) (call : Call) :
    let fresh : World := { files := fs }
    let after := worldAfter host before fresh
    let names := before.filterMap (Call.loaded? host fs)
    (call.report host after).outcome = (call.report host fresh).outcome ∧
      (call.report host after).notices.filter (!·.isLoad) =
        (call.report host fresh).notices.filter (!·.isLoad) ∧
      (call.report host after).notices.filter (·.isLoad) =
        (match call.loaded? host fs with
        | some name => if name ∈ names then [] else [.parserLoaded name (grammarOf name)]
        | none => []) ∧
      after.notices.filter (·.isLoad) =
        names.eraseDups.map (fun name => .parserLoaded name (grammarOf name)) ∧
      ∀ name ∈ names, ∃ parser, host.pack.load (grammarOf name) = .ok parser := by
  intro fresh after names
  have hfresh := World.isAfter_nil host fs
  have hafter : World.IsAfter host fs before after := worldAfter_isAfter host fs before
  obtain ⟨outcome, others, hothers, hreport⟩ := call.report_eq host fs
  rw [hreport fresh hfresh.faithful hfresh.files, hreport after hafter.faithful hafter.files]
  refine ⟨rfl, ?_, ?_, hafter.loads, ?_⟩
  · rw [after.filter_not_isLoad _ hothers, fresh.filter_not_isLoad _ hothers]
  · rw [after.filter_isLoad _ hothers]
    cases call.loaded? host fs with
    | none => rfl
    | some name =>
      rw [World.loadNotices]
      simp only [hafter.knows]
      rfl
  · intro name hname
    obtain ⟨call, -, hcall⟩ := List.mem_filterMap.mp hname
    exact Call.exists_of_loaded? hcall

end ClassChart
