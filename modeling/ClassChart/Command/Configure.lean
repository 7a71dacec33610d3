import ClassChart.Command.Generate

/-!
# Changing and showing settings

## Main definitions

* `showSettings`: shows the settings of the project and those in force.
* `configure`: the command. Its result is the exit code.
-/

namespace ClassChart.Command

variable (host : Host)

/-- The settings that are to be saved. -/
def updatesOf (options : ConfigureOptions) : Object :=
  let indent := options.indent.map fun value =>
    (RawText.ofString "indent", Json.str (normalizeIndent value))
  let framed := options.framed.map fun framed => (RawText.ofString "wrap", Json.bool framed)
  indent.toList ++ framed.toList

/-- A setting with its value, after some words. -/
def settingLine (start : String) (field : RawText × Json) : RawText :=
  RawText.ofString start ++ field.1 ++ RawText.ofString (" = " ++ field.2.shown)

/-- Shows the settings of a project and those in force. -/
def showSettings (json : Bool) (root : Path) : Job Unit := do
  let current ← loadSettings root
  let indent ← resolveIndent host none root
  let framed ← resolveFrame none root
  let path := (settingsPath root).toText
  if json then
    printEnvelope host "config" [("verdict", .str "ok")]
      [("config_path", .str path), ("configured", .obj current), ("indent", .str indent),
        ("wrap", .bool framed)]
  else
    if current.isEmpty then
      Job.printLine "No .classdiagram/config.json found (using defaults)."
    else
      Job.printLine ("Config: " ++ path : String)
      Job.printLines (current.map (settingLine "  "))
    Job.printLine ("Resolved indent: " ++ (Json.str indent).shown ++
      "  (override with CLASSDIAGRAM_INDENT or --indent)" : String)
    Job.printLine ("Resolved wrap: " ++ (Json.bool framed).shown : String)

/-- Saves settings and tells so. -/
def applyUpdates (json : Bool) (root : Path) (updates : Object) : Job Unit := do
  let path ← saveSettings updates root
  if json then
    printEnvelope host "config" [("verdict", .str "saved")]
      (("config_path", .str path.toText) :: updates)
  else
    Job.printLines (updates.map (settingLine "Saved "))
    Job.printLine ("Config written to " ++ path.toText : String)

/-- Saves the settings that are given. They are shown if there are none to save or, in words, if
that is asked for. -/
def configure (json : Bool) (options : ConfigureOptions) : Job Int := do
  let root ← Job.ofFileFault (projectRoot (← Job.files) here)
  let updates := updatesOf options
  if updates.isEmpty then showSettings host json root
  else
    applyUpdates host json root updates
    if options.view && !json then showSettings host json root
  return 0

end ClassChart.Command
