import ClassChart.Error
import ClassChart.Json.Parser
import ClassChart.Json.Printer

/-!
# Notices

What the program notes while it works, beside its results. Every notice has a level, the channel it
comes from and a message.

## Main definitions

* `Notice`: the notices, by what they tell.
* `Notice.level`, `Notice.channel`, `Notice.message`, `Notice.line`: how one is shown.
* `Logged`: a result or an error together with the notices made on the way.
-/

namespace ClassChart

/-- How much a notice matters. -/
inductive Level where
  | debug
  | info
  | warning
  deriving DecidableEq, Repr

/-- The name of a level. -/
def Level.name : Level → String
  | .debug => "DEBUG"
  | .info => "INFO"
  | .warning => "WARNING"

/-- Why a settings file is of no use. -/
inductive SettingsFault where
  | access (fault : AccessFault)
  /-- The text cannot be read as JSON. -/
  | unreadable (fault : Json.ReadFault)
  deriving DecidableEq, Repr

/-- The name of a settings fault in messages. -/
def SettingsFault.label : SettingsFault → String
  | .access fault => fault.label
  | .unreadable .malformed => "JSONDecodeError"
  | .unreadable .longInteger => "ValueError"

/-- Something worth telling beside the result. -/
inductive Notice where
  /-- The source has syntax errors. The file is empty if the source has none. -/
  | syntaxErrors (file : String)
  /-- A declaration without a counterpart in diagrams. -/
  | skippedDeclaration (kind : String) (line : Nat)
  | parserLoaded (language grammar : String)
  | unreadableSettings (path : String) (fault : SettingsFault)
  | settingsNoObject (path : String)
  | unusableIndent (path : String) (value : Json)
  | unusableWrap (path : String) (value : Json)
  | wrote (path : String)
  | skippedSource (path : String) (fault : AccessFault)
  deriving Repr

namespace Notice

/-- The level of a notice. -/
def level : Notice → Level
  | .skippedDeclaration .. | .parserLoaded .. => .debug
  | .wrote .. => .info
  | _ => .warning

/-- The channel of a notice. -/
def channel : Notice → String
  | .syntaxErrors .. | .skippedDeclaration .. => "classdiagram.languages.csharp_lang"
  | .parserLoaded .. => "classdiagram.languages.registry"
  | .unreadableSettings .. | .settingsNoObject .. | .unusableIndent .. | .unusableWrap .. =>
    "classdiagram.config"
  | .wrote .. | .skippedSource .. => "classdiagram.commands.cmd_generate"

/-- The wording of a notice. -/
def message : Notice → String
  | .syntaxErrors file =>
    (if file.isEmpty then "<source>" else file) ++
      ": syntax errors found, diagram may be incomplete"
  | .skippedDeclaration kind line => "skipping " ++ kind ++ " at line " ++ toString line
  | .parserLoaded language grammar =>
    "Loaded tree-sitter parser for " ++ language ++ " (grammar " ++ grammar ++ ")"
  | .unreadableSettings path fault => "Ignoring unreadable config " ++ path ++ ": " ++ fault.label
  | .settingsNoObject path => "Ignoring config " ++ path ++ ": expected a JSON object"
  | .unusableIndent path value => "Ignoring non-string indent in " ++ path ++ ": " ++ value.shown
  | .unusableWrap path value => "Ignoring non-boolean wrap in " ++ path ++ ": " ++ value.shown
  | .wrote path => "Wrote " ++ path
  | .skippedSource path fault => "Skipping " ++ path ++ ": " ++ fault.label

/-- The line that shows a notice. -/
def line (n : Notice) : String :=
  n.level.name ++ " " ++ n.channel ++ ": " ++ n.message

end Notice

/-! ## Results with notices -/

/-- A result or an error, with the notices made before it. -/
structure Logged (ε α : Type) where
  notices : List Notice
  outcome : Except ε α

namespace Logged

variable {ε α β : Type}

/-- A result without notices. -/
protected def pure (a : α) : Logged ε α :=
  ⟨[], .ok a⟩

/-- Goes on with the result of `x`. After an error there is nothing to go on with. -/
protected def bind (x : Logged ε α) (f : α → Logged ε β) : Logged ε β :=
  match x.outcome with
  | .ok a => ⟨x.notices ++ (f a).notices, (f a).outcome⟩
  | .error e => ⟨x.notices, .error e⟩

instance : Monad (Logged ε) where
  pure := Logged.pure
  bind := Logged.bind

instance : LawfulMonad (Logged ε) :=
  LawfulMonad.mk' (Logged ε)
    (fun x => by
      obtain ⟨notices, outcome⟩ := x
      cases outcome <;> simp [Functor.map, Logged.bind, Logged.pure])
    (fun a f => by simp [bind, Logged.bind, pure, Logged.pure])
    (fun x f g => by
      obtain ⟨notices, outcome⟩ := x
      cases outcome with
      | error e => rfl
      | ok a => cases h : (f a).outcome <;> simp [bind, Logged.bind, h])

/-- Makes a notice. -/
def notice (n : Notice) : Logged ε Unit :=
  ⟨[n], .ok ()⟩

/-- A result or an error without notices. -/
def ofExcept (outcome : Except ε α) : Logged ε α :=
  ⟨[], outcome⟩

end Logged

end ClassChart
