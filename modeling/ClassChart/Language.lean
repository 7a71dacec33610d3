import ClassChart.Error
import ClassChart.Path
import ClassChart.Text.Blank
import ClassChart.Text.LowerCase

/-!
# Languages

A source language goes by several names and is told by the extension of a file.

## Main definitions

* `normalizeLanguage`: the proper name of a language.
* `languageOf?`: the language of a file.
* `FrontEnd`, `frontEnd`: what reads a language.
* `grammarOf`: the name of the grammar of a language.
-/

namespace ClassChart

/-- The language that can be read. -/
def defaultLanguage : String := "c_sharp"

/-- The language that each extension stands for. -/
def languageOfExtension : List (String × String) :=
  [(".cs", defaultLanguage)]

/-- The extensions of files that can be read. -/
def supportedExtensions : List String :=
  languageOfExtension.map (·.1)

/-- Other names of languages. -/
def languageAliases : List (String × String) :=
  [("c#", defaultLanguage), ("cs", defaultLanguage), ("csharp", defaultLanguage)]

/-- The proper name of a language. Blanks around it and capitals do not matter. -/
def normalizeLanguage (language : String) : String :=
  let key := Text.lower (Text.strip language)
  (languageAliases.lookup key).getD key

/-- The language of a file. -/
def languageOf? (p : Path) : Option String :=
  languageOfExtension.lookup (Text.lower p.suffix)

/-- What reads a language. -/
structure FrontEnd where
  language : String
  extensions : List String
  deriving DecidableEq, Repr

/-- The front end of a language. -/
def frontEnd (language : String) : Except Error FrontEnd :=
  let language := normalizeLanguage language
  if language = defaultLanguage then .ok ⟨language, supportedExtensions⟩
  else .error (.unsupportedLanguage language supportedExtensions)

/-- The name of the grammar of a language. -/
def grammarOf (language : String) : String :=
  if language = defaultLanguage then "csharp" else language

end ClassChart
