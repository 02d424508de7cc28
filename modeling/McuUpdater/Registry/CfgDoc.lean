import McuUpdater.Lib.Outline
import McuUpdater.Lib.PyLines

/-! `cfgdoc.py`: a `.cfg` document kept as its lines, so that comments and unknown keys
survive an edit. The spans `_parse` keeps as line numbers are kept as the lines themselves: a
section is its header and what follows up to the next header, an option its line and the
indented lines after it. -/
namespace McuUpdater.CfgDoc
open PyText Outline

def indent : Str := List.replicate 4 ' '

def isCommentStart (c : Char) : Bool := c = '#' || c = ';'

/-- `.*$` reaches the end: a line feed can only be the last character. -/
def toEnd (s : Str) : Bool := !s.dropLast.contains '\n'

/-- What `_SECTION_RE` names a header line, stripped. -/
def sectionName : Str → Option Str
  | '[' :: s =>
    match s.dropWhile (· ≠ ']') with
    | ']' :: rest =>
      let name := s.takeWhile (· ≠ ']')
      let tail := rest.dropWhile isSpace
      if name ≠ [] ∧ (tail = [] ∨ tail.head?.any isCommentStart ∧ toEnd tail) then some (strip name)
      else none
    | _ => none
  | _ => none

/-- `_INLINE_COMMENT_RE`: from a `#` or `;` that starts the text or follows whitespace. -/
def cutComment (afterSpace : Bool) : Str → Str
  | [] => []
  | c :: s =>
    if afterSpace && isCommentStart c && toEnd (c :: s) then [] else c :: cutComment (isSpace c) s

/-- `_strip_inline_comment` -/
def stripInlineComment (text : Str) : Str := rstrip (cutComment true text)

/-- The key `_OPTION_RE` finds, and the value on its line. -/
def optionOf : Str → Option (Str × Str)
  | [] => none
  | c :: s =>
    if isSpace c || c = ':' || c = '=' || isCommentStart c then none
    else match s.dropWhile fun d => d ≠ ':' && d ≠ '=' with
      | [] => none
      | _ :: value =>
        if toEnd value then
          some (strip (c :: s.takeWhile fun d => d ≠ ':' && d ≠ '='), stripInlineComment (strip value))
        else none

/-- `_is_comment` -/
def isComment (line : Str) : Bool := (line.dropWhile isSpace).head?.any isCommentStart

/-- `_is_blank` -/
def isBlank (line : Str) : Bool := strip line = []

/-- `_is_continuation`: indented and not blank. -/
def isContinuation (line : Str) : Bool :=
  line.head?.any (fun c => c = ' ' || c = '\t') && !isBlank line

def isHeader (line : Str) : Bool := (sectionName line).isSome

/-- An indented line belongs to the one above; every other line closes the open option. -/
def startsItem (line : Str) : Bool := !isContinuation line

structure CfgDocument where
  lines : List Str
  deriving DecidableEq

def CfgDocument.ofText (text : Str) : CfgDocument := ⟨splitlines text⟩

/-- `render` -/
def CfgDocument.render (doc : CfgDocument) : Str := textOf doc.lines

def CfgDocument.sections (doc : CfgDocument) : List (Block Str) := (cut isHeader doc.lines).blocks

def nameOf (sec : Block Str) : Str := (sectionName sec.head).getD []

/-- The lines under a header: options with their continuation lines, and all others. -/
def items (body : List Str) : List (Block Str) := (cut startsItem body).blocks

def keyOf (item : Block Str) : Option Str := (optionOf item.head).map Prod.fst

/-- A continuation line adds its item to the value; an indented comment only its line. -/
def addItem (value line : Str) : Str :=
  if isComment line then value
  else
    let item := stripInlineComment (strip line)
    if item = [] then value else value ++ '\n' :: item

def valueOf (item : Block Str) : Str :=
  item.body.foldl addItem (((optionOf item.head).map Prod.snd).getD [])

/-- The options of one key in the order they are written. -/
def written (body : List Str) (key : Str) : List (Block Str) :=
  (items body).filter fun item => keyOf item = some key

section Reading
variable (doc : CfgDocument) (name key : Str)

/-- `self.sections[name]`: the first one keeps the name. -/
def CfgDocument.section? : Option (Block Str) := doc.sections.find? (nameOf · = name)

def CfgDocument.hasSection : Bool := (doc.section? name).isSome

/-- `duplicate_sections` is empty. -/
def CfgDocument.NoDuplicates : Prop := (doc.sections.map nameOf).Nodup

instance : Decidable doc.NoDuplicates := inferInstanceAs (Decidable (List.Nodup _))

/-- `section_names(prefix)` -/
def CfgDocument.sectionNames (start : Str) : List Str :=
  (doc.sections.map nameOf).eraseDups.filter fun n => n = start || (start ++ [' ']).isPrefixOf n

/-- Of a key written twice the first option counts. -/
def CfgDocument.option? : Option (Block Str) :=
  (doc.section? name).bind fun sec => (written sec.body key).head?

/-- `get` -/
def CfgDocument.get : Option Str := (doc.option? name key).map valueOf

/-- `part.strip() for part in raw.splitlines() if part.strip()` -/
def listOf (raw : Str) : List Str := ((splitlines raw).map strip).filter (· ≠ [])

/-- `get_list` -/
def CfgDocument.getList : List Str := listOf ((doc.get name key).getD [])

/-- `get_csv`: `none` when the key is absent. -/
def CfgDocument.getCsv : Option (List Str) := (doc.get name key).map csv

end Reading

/-! ## Writing -/

inductive Value
  | text (s : Str)
  | list (items : List Str)
  deriving DecidableEq

/-- The comments of a block: beside an item, standing before one, and left over. -/
structure Decoration where
  inline : List (Str × Str) := []
  before : List (Str × List Str) := []
  pending : List Str := []

def Decoration.line (d : Decoration) (raw : Str) : Decoration :=
  let text := strip raw
  if text = [] then d
  else if isComment raw then { d with pending := d.pending ++ [text] }
  else
    let item := stripInlineComment text
    if item = [] then d
    else
      let comment := strip (text.drop item.length)
      { inline := if comment = [] then d.inline else (item, comment) :: d.inline
        before := if d.pending = [] then d.before else (item, d.pending) :: d.before
        pending := [] }

/-- `_decoration`; of two lines with one item the later one's comments are kept. -/
def decoration : Option (Block Str) → Decoration
  | none => {}
  | some existing => existing.body.foldl Decoration.line {}

def Decoration.itemLines (d : Decoration) (item : Str) : List Str :=
  ((d.before.lookup item).getD []).map (indent ++ ·) ++
    [indent ++ item ++ ((d.inline.lookup item).map ("  ".toList ++ ·)).getD []]

/-- `block`: with no item left only the key is written. -/
def renderBlock (key : Str) (d : Decoration) (items : List Str) : Block Str :=
  ⟨key ++ [':'], if items = [] then [] else
    items.flatMap d.itemLines ++ d.pending.map (indent ++ ·)⟩

/-- `s.split(sep, 1)[-1]` -/
def afterFirst (sep : Char) (s : Str) : Str :=
  match s.dropWhile (· ≠ sep) with
  | [] => s
  | _ :: rest => rest

/-- The comment a one-line option had after its value. -/
def trailingComment : Option (Block Str) → Str
  | some ⟨line, []⟩ =>
    let body := afterFirst '=' (afterFirst ':' line)
    strip (body.drop (stripInlineComment body).length)
  | _ => []

/-- `_render` -/
def render (key : Str) (value : Value) (existing : Option (Block Str)) : Block Str :=
  match value with
  | .list items => renderBlock key (decoration existing) (items.filter (strip · ≠ []))
  | .text text =>
    if '\n' ∈ text then renderBlock key (decoration existing) (listOf text)
    else
      let comment := trailingComment existing
      ⟨key ++ ": ".toList ++ text ++ (if comment = [] then [] else "  ".toList ++ comment), []⟩

/-- `set`, on the lines of the section: in place of the first option of the key, or after the
last line that is not blank. -/
def setIn (key : Str) (value : Value) (body : List Str) : List Str :=
  if written body key = [] then
    body.rdropWhile isBlank ++ (render key value none).lines ++ body.rtakeWhile isBlank
  else
    editFirst startsItem (keyOf · = some key) (fun existing => [render key value (some existing)]) body

/-- `remove_option`, on the lines of the section. -/
def removeIn (key : Str) (body : List Str) : List Str :=
  editFirst startsItem (keyOf · = some key) (fun _ => []) body

namespace CfgDocument
variable (doc : CfgDocument) (name : Str)

/-- The first section of this name, with other lines under its header. -/
def edit (f : List Str → List Str) : CfgDocument :=
  ⟨editFirst isHeader (nameOf · = name) (fun sec => [⟨sec.head, f sec.body⟩]) doc.lines⟩

/-- `f"[{name}]"` -/
def headerLine (name : Str) : Str := '[' :: (name ++ [']'])

/-- `add_section` -/
def addSection : CfgDocument :=
  if doc.hasSection name then doc
  else ⟨doc.lines ++ (if doc.lines.getLast?.any (!isBlank ·) then [[]] else []) ++
    [headerLine name]⟩

/-- `rename_section`: what the header line holds after the name stays. -/
def renameSection (old new : Str) : CfgDocument :=
  if doc.hasSection old ∧ ¬doc.hasSection new then
    ⟨editFirst isHeader (nameOf · = old)
      (fun sec => [⟨headerLine new ++ afterFirst ']' sec.head, sec.body⟩]) doc.lines⟩
  else doc

/-- `set` -/
def set (key : Str) (value : Value) : CfgDocument := (doc.addSection name).edit name (setIn key value)

/-- `remove_option` -/
def removeOption (key : Str) : CfgDocument := doc.edit name (removeIn key)

/-- `remove_section`: a section reaches to the next header, so no blank line follows it. -/
def removeSection : CfgDocument :=
  ⟨editFirst isHeader (nameOf · = name) (fun _ => []) doc.lines⟩

end CfgDocument
end McuUpdater.CfgDoc
