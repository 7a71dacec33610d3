import ClassChart.Diagram.Document
import ClassChart.Diagram.Drawing
import ClassChart.Language
import ClassChart.Syntax.Outline
import ClassChart.Job

/-!
# From sources to diagrams

A source is read by the front end of its language, after a parser has turned it into a syntax tree.
Front ends and parsers are made once for each name they are asked for by.

## Main definitions

* `findFrontEnd`, `loadParser`: the front end and the parser of a language.
* `Source`: bytes, or a text that is yet to be encoded.
* `parseSource`, `parseFile`: the declarations of a source and of a file.
* `generateFromSource`, `generateFromFile`: the diagram of a source and of a file.
-/

namespace ClassChart

open Text (Bytes)

/-- Looks for a grammar in a collection. -/
def LanguagePack.load (grammar : String) : LanguagePack → Except String Parser
  | .absent => .error "tree-sitter-language-pack is not installed"
  | .installed load => load grammar

/-- Where front ends are kept. -/
def frontEndShelf : Shelf FrontEnd where
  kept := World.frontEnds
  keep language found w := { w with frontEnds := (language, found) :: w.frontEnds }

/-- Where parsers are kept. -/
def parserShelf : Shelf Parser where
  kept := World.parsers
  keep language parser w := { w with parsers := (language, parser) :: w.parsers }

/-- The front end of a language: the one found before, or a new one. -/
def findFrontEnd (language : String) : Job FrontEnd :=
  Job.makeOnce frontEndShelf (fun name => Job.ofError (frontEnd name)) language

variable (host : Host)

/-- A new parser of a language. -/
def newParser (language : String) : Job Parser :=
  match host.pack.load (grammarOf language) with
  | .ok parser => do
    Job.notice (.parserLoaded language (grammarOf language))
    return parser
  | .error reason => Job.fail (.grammarUnavailable language reason)

/-- The parser of a language: the one loaded before, or a new one. -/
def loadParser (language : String) : Job Parser :=
  Job.makeOnce parserShelf (newParser host) language

/-- A source. -/
inductive Source where
  | bytes (content : Bytes)
  /-- A text that is yet to be encoded. -/
  | text (content : RawText)

/-- The bytes of a source. A text with lone surrogates has none. -/
def Source.bytes? : Source → Option Bytes
  | .bytes content => some content
  | .text content => content.toString?.map Text.Utf8.encode

/-- The bytes of a source, or the end of the job. -/
def Source.encode (source : Source) : Job Bytes :=
  match source.bytes? with
  | some content => return content
  | none => throw .unencodable

/-- The declarations of a source. A text is encoded once its front end is found. -/
def parseSource (source : Source) (language filePath : String) : Job Declaration := do
  let language := normalizeLanguage language
  let _ ← findFrontEnd language
  let content ← source.encode
  let parser ← loadParser host language
  Job.ofOutline (Syntax.outline content (parser content) filePath)

/-- The text of a file. -/
def readText (p : Path) : Job String := do
  match Text.Utf8.decodeFile (← Job.read p) with
  | .ok text => return text
  | .error fault => throw (.access (.undecodable fault))

/-- The declarations of a file. Its language is told before it is read. -/
def parseFile (p : Path) : Job Declaration := do
  match languageOf? p with
  | none => Job.fail (.unsupportedLanguage p.toText supportedExtensions)
  | some language =>
    let text ← readText p
    parseSource host (.text text) language p.toText

/-- How a diagram is to look. -/
structure Style where
  indent : RawText := defaultIndent
  framed : Bool := true
  title : Option RawText := none

/-- The diagram of declarations. -/
def diagram (style : Style) (unit : Declaration) : RawText :=
  document (unit.render style.indent) style.title style.framed

/-- The diagram of a source. -/
def generateFromSource (source : Source) (language : String) (style : Style) : Job RawText := do
  return diagram style (← parseSource host source language "")

/-- The diagram of a file. -/
def generateFromFile (p : Path) (style : Style) : Job RawText := do
  return diagram style (← parseFile host p)

end ClassChart
