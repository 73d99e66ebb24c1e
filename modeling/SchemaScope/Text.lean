/-!
Texts: blanks around them, dots between segments, and paths.

A character is blank when it has the White_Space property. There are 25 of them, and only six are
ASCII, so the table is spelled out.

Dotted text has a dot between each two segments. Reading is generous, since leading, trailing and
doubled dots do not count. Writing is plain, so reading gives the segments back exactly when none is
empty and none holds a dot.

The path of a schema file may be written with any number of leading `./` steps, which do not change
the file it names.
-/

set_option autoImplicit false

namespace SchemaScope.Text

/-! ## Blanks -/

/-- The code points with the White_Space property, as inclusive ranges in ascending order. -/
def blankRanges : List (Nat × Nat) :=
  [(0x0009, 0x000D), (0x0020, 0x0020), (0x0085, 0x0085), (0x00A0, 0x00A0), (0x1680, 0x1680),
   (0x2000, 0x200A), (0x2028, 0x2029), (0x202F, 0x202F), (0x205F, 0x205F), (0x3000, 0x3000)]

def isBlank (char : Char) : Bool :=
  blankRanges.any fun range => decide (range.1 ≤ char.toNat ∧ char.toNat ≤ range.2)

/-- The blank characters one by one: the controls from tab to carriage return, the space, the next
line, and the spaces and separators beyond ASCII. -/
theorem isBlank_iff {char : Char} :
    isBlank char = true ↔ char.toNat ∈
      [0x0009, 0x000A, 0x000B, 0x000C, 0x000D, 0x0020, 0x0085, 0x00A0, 0x1680, 0x2000, 0x2001,
       0x2002, 0x2003, 0x2004, 0x2005, 0x2006, 0x2007, 0x2008, 0x2009, 0x200A, 0x2028, 0x2029,
       0x202F, 0x205F, 0x3000] := by
  simp only [isBlank, blankRanges, List.any_cons, List.any_nil, Bool.or_eq_true, decide_eq_true_eq,
    Bool.or_false, List.mem_cons, List.not_mem_nil, or_false]
  omega

def trimStart (text : List Char) : List Char :=
  text.dropWhile isBlank

def trimEnd (text : List Char) : List Char :=
  (trimStart text.reverse).reverse

/-- A text without its leading and trailing blanks. Blanks between other characters stay. -/
def trim (text : List Char) : List Char :=
  trimEnd (trimStart text)

/-! ## Dotted text -/

/-- Cuts a text at every dot: `n` dots give `n + 1` pieces, of which any may be empty. -/
def pieces : List Char → List (List Char)
  | [] => [[]]
  | char :: rest =>
      if char = '.' then [] :: pieces rest else (pieces rest).modifyHead (char :: ·)

def segments (dotted : String) : List String :=
  ((pieces dotted.toList).filter fun piece => !piece.isEmpty).map String.ofList

def joinDots (segments : List String) : String :=
  String.ofList (['.'].intercalate (segments.map String.toList))

/-! ## Paths -/

def dropCurrentSteps : List Char → List Char
  | '.' :: '/' :: rest => dropCurrentSteps rest
  | path => path

private theorem not_currentStep_dropCurrentSteps (path : List Char) :
    ¬ ['.', '/'] <+: dropCurrentSteps path := by
  fun_induction dropCurrentSteps path with
  | case1 rest ih => exact ih
  | case2 path other =>
      rintro ⟨rest, rfl⟩
      exact other rest rfl

private theorem dropCurrentSteps_eq_self {path : List Char} (bare : ¬ ['.', '/'] <+: path) :
    dropCurrentSteps path = path := by
  fun_cases dropCurrentSteps path with
  | case1 rest => exact absurd (List.prefix_append ['.', '/'] rest) bare
  | case2 path other => rfl

/-- The spelling of a path without leading `./` steps. -/
def canonicalPath (path : String) : String :=
  String.ofList (dropCurrentSteps path.toList)

private theorem toList_canonicalPath (path : String) :
    (canonicalPath path).toList = dropCurrentSteps path.toList :=
  String.toList_ofList

/-- A leading `./` does not count. -/
theorem canonicalPath_currentStep (path : String) :
    canonicalPath ("./" ++ path) = canonicalPath path := by
  have steps : ("./" ++ path).toList = '.' :: '/' :: path.toList := String.toList_append
  rw [canonicalPath, steps, dropCurrentSteps, canonicalPath]

/-- A path is canonical exactly when it does not start with `./`. -/
theorem canonicalPath_eq_self_iff {path : String} :
    canonicalPath path = path ↔ ¬ "./".toList <+: path.toList := by
  constructor
  · intro canonical
    have bare := not_currentStep_dropCurrentSteps path.toList
    rwa [← toList_canonicalPath, canonical] at bare
  · intro bare
    rw [canonicalPath, dropCurrentSteps_eq_self bare, String.ofList_toList]

/-- A canonical spelling is its own canonical spelling. -/
@[simp] theorem canonicalPath_idem (path : String) :
    canonicalPath (canonicalPath path) = canonicalPath path := by
  rw [canonicalPath_eq_self_iff, toList_canonicalPath]
  exact not_currentStep_dropCurrentSteps path.toList

end SchemaScope.Text
