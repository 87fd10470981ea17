import ToyTstat.Lib.CString

/-!
# JSON, written a piece at a time

A text in which containers are still open. A piece is written behind what is there, with the separator
that it needs. Whatever is there can be completed.
-/

namespace CLib

/-! ## Values -/

/-- The texts of the scalars and of the keys are given. -/
inductive JsonTree
  | scalar (text : List Byte)
  | array (items : List JsonTree)
  | object (members : List (List Byte × JsonTree))

def commas (texts : List (List Byte)) : List Byte := [ch ','].intercalate texts

/-- What separates the next text from those. -/
def commaAfter (texts : List (List Byte)) : List Byte := if texts = [] then [] else [ch ',']

theorem commas_snoc (texts : List (List Byte)) (text : List Byte) :
    commas (texts ++ [text]) = commas texts ++ commaAfter texts ++ text := by
  unfold commas commaAfter
  induction texts with
  | nil => simp
  | cons first texts ih =>
    rw [if_neg (List.cons_ne_nil _ _), List.cons_append, List.intercalate_cons_of_ne_nil (by simp), ih]
    by_cases hnil : texts = []
    · simp [hnil]
    · simp [List.intercalate_cons_of_ne_nil hnil, hnil]

mutual
def JsonTree.text : JsonTree → List Byte
  | .scalar text => text
  | .array items => ch '[' :: commas (itemTexts items) ++ [ch ']']
  | .object members => ch '{' :: commas (memberTexts members) ++ [ch '}']
termination_by structural tree => tree
def itemTexts : List JsonTree → List (List Byte)
  | [] => []
  | tree :: items => tree.text :: itemTexts items
termination_by structural items => items
def memberTexts : List (List Byte × JsonTree) → List (List Byte)
  | [] => []
  | (key, tree) :: members => (key ++ [ch ':'] ++ tree.text) :: memberTexts members
termination_by structural members => members
end

theorem itemTexts_snoc (items : List JsonTree) (tree : JsonTree) :
    itemTexts (items ++ [tree]) = itemTexts items ++ [tree.text] := by
  induction items with
  | nil => rfl
  | cons first items ih => rw [List.cons_append, itemTexts, itemTexts, ih, List.cons_append]

theorem memberTexts_snoc (members : List (List Byte × JsonTree)) (key : List Byte) (tree : JsonTree) :
    memberTexts (members ++ [(key, tree)]) = memberTexts members ++ [key ++ [ch ':'] ++ tree.text] := by
  induction members with
  | nil => rfl
  | cons first members ih => rw [List.cons_append, memberTexts, memberTexts, ih, List.cons_append]

/-! ## Open containers -/

/-- What is in an open container: its entries, and in an object the key that waits for its value. -/
inductive JsonFrame
  | array (items : List JsonTree)
  | object (members : List (List Byte × JsonTree)) (key : Option (List Byte))

namespace JsonFrame

def empty (is_object : Bool) : JsonFrame := if is_object then .object [] none else .array []

def is_object : JsonFrame → Bool
  | .array _ => false
  | .object _ _ => true

/-- A key counts, and so does its value. -/
def count : JsonFrame → Nat
  | .array items => items.length
  | .object members none => 2 * members.length
  | .object members (some _) => 2 * members.length + 1

def separator : JsonFrame → List Byte
  | .array items => commaAfter (itemTexts items)
  | .object members none => commaAfter (memberTexts members)
  | .object _ (some _) => [ch ':']

def inside : JsonFrame → List Byte
  | .array items => commas (itemTexts items)
  | .object members none => commas (memberTexts members)
  | .object members (some key) => commas (memberTexts members) ++ commaAfter (memberTexts members) ++ key

def opening (frame : JsonFrame) : Byte := if frame.is_object then ch '{' else ch '['

def closing (frame : JsonFrame) : Byte := if frame.is_object then ch '}' else ch ']'

/-- No key is due. -/
def takesValue : JsonFrame → Bool
  | .object _ none => false
  | _ => true

def put (tree : JsonTree) : JsonFrame → Option JsonFrame
  | .array items => some (.array (items ++ [tree]))
  | .object members (some key) => some (.object (members ++ [(key, tree)]) none)
  | .object _ none => none

/-- Where a key is due, the string is the key. -/
def putString (text : List Byte) : JsonFrame → Option JsonFrame
  | .object members none => some (.object members (some text))
  | frame => frame.put (.scalar text)

/-- No key waits. -/
def closed : JsonFrame → Option JsonTree
  | .array items => some (.array items)
  | .object members none => some (.object members)
  | .object _ (some _) => none

/-- An entry is behind the others. -/
structure Entered (text : List Byte) (frame frame' : JsonFrame) : Prop where
  is_object : frame'.is_object = frame.is_object
  count : frame'.count = frame.count + 1
  inside : frame'.inside = frame.inside ++ (frame.separator ++ text)

variable {frame frame' : JsonFrame} {tree : JsonTree} {text : List Byte}

theorem put_entered (h : frame.put tree = some frame') : Entered tree.text frame frame' := by
  cases frame with
  | array items =>
    obtain rfl : JsonFrame.array (items ++ [tree]) = frame' := Option.some.inj h
    refine ⟨rfl, List.length_append, ?_⟩
    rw [inside, itemTexts_snoc, commas_snoc, List.append_assoc]
    rfl
  | object members key =>
    cases key with
    | none => cases h
    | some key =>
      obtain rfl : JsonFrame.object (members ++ [(key, tree)]) none = frame' := Option.some.inj h
      refine ⟨rfl, ?_, ?_⟩
      · rw [count, count, List.length_append, List.length_singleton]
        omega
      · rw [inside, inside, memberTexts_snoc, commas_snoc, separator]
        simp only [List.append_assoc]

theorem putString_entered (h : frame.putString text = some frame') : Entered text frame frame' := by
  cases frame with
  | array items =>
    have hput : (array items).put (.scalar text) = some frame' := h
    exact put_entered hput
  | object members key =>
    cases key with
    | none =>
      obtain rfl : JsonFrame.object members (some text) = frame' := Option.some.inj h
      exact ⟨rfl, rfl, List.append_assoc _ _ _⟩
    | some key =>
      have hput : (object members (some key)).put (.scalar text) = some frame' := h
      exact put_entered hput

theorem put_some (h : frame.takesValue) (tree : JsonTree) :
    ∃ frame', frame.put tree = some frame' ∧ frame'.closed.isSome := by
  cases frame with
  | array items => exact ⟨_, rfl, rfl⟩
  | object members key =>
    cases key with
    | none => cases h
    | some key => exact ⟨_, rfl, rfl⟩

theorem closed_text (h : frame.closed = some tree) : tree.text = frame.opening :: frame.inside ++ [frame.closing] := by
  cases frame with
  | array items =>
    obtain rfl : JsonTree.array items = tree := Option.some.inj h
    rfl
  | object members key =>
    cases key with
    | none =>
      obtain rfl : JsonTree.object members = tree := Option.some.inj h
      rfl
    | some key => cases h

theorem empty_inside (is_object : Bool) : (empty is_object).inside = [] ∧ (empty is_object).count = 0 ∧
    (empty is_object).is_object = is_object := by
  cases is_object <;> exact ⟨rfl, rfl, rfl⟩

end JsonFrame

/-! ## The stream -/

/-- The innermost container, and those around it. The last is no container: the values in it have no brackets. -/
structure JsonStream where
  inner : JsonFrame
  outer : List JsonFrame

inductive JsonPiece
  | scalar (text : List Byte)
  /-- Of a string or a key. -/
  | string (text : List Byte)
  | opened (is_object : Bool)
  | closed (is_object : Bool)

namespace JsonStream

def start : JsonStream := ⟨.array [], []⟩

def textIn (inner : JsonFrame) : List JsonFrame → List Byte
  | [] => inner.inside
  | frame :: outer => textIn frame outer ++ (frame.separator ++ inner.opening :: inner.inside)

def text (z : JsonStream) : List Byte := textIn z.inner z.outer

def close (inner : JsonFrame) : List JsonFrame → Option JsonStream
  | [] => none
  | frame :: outer => (inner.closed.bind fun tree => frame.put tree).map fun frame => ⟨frame, outer⟩

def step (z : JsonStream) : JsonPiece → Option JsonStream
  | .scalar text => (z.inner.put (.scalar text)).map fun inner => { z with inner }
  | .string text => (z.inner.putString text).map fun inner => { z with inner }
  | .opened is_object => if z.inner.takesValue then some ⟨.empty is_object, z.inner :: z.outer⟩ else none
  | .closed is_object => if z.inner.is_object = is_object then close z.inner z.outer else none

/-- What a piece adds to the text. -/
def added (z : JsonStream) : JsonPiece → List Byte
  | .scalar text => z.inner.separator ++ text
  | .string text => z.inner.separator ++ text
  | .opened is_object => z.inner.separator ++ [(JsonFrame.empty is_object).opening]
  | .closed _ => [z.inner.closing]

variable {z z' : JsonStream} {inner inner' frame : JsonFrame} {outer : List JsonFrame} {t : List Byte}

theorem textIn_append (hobject : inner'.is_object = inner.is_object) (hinside : inner'.inside = inner.inside ++ t)
    (outer : List JsonFrame) : textIn inner' outer = textIn inner outer ++ t := by
  have hopening : inner'.opening = inner.opening := congrArg (fun b : Bool => if b then ch '{' else ch '[') hobject
  cases outer with
  | nil => exact hinside
  | cons frame outer =>
    rw [textIn, textIn, hopening, hinside]
    simp only [List.append_assoc, List.cons_append]

theorem text_close (h : close inner outer = some z') : z'.text = textIn inner outer ++ [inner.closing] := by
  cases outer with
  | nil => cases h
  | cons frame outer =>
    obtain ⟨frame', hput, rfl⟩ := Option.map_eq_some_iff.mp h
    obtain ⟨tree, hclosed, hput⟩ := Option.bind_eq_some_iff.mp hput
    have hentered := JsonFrame.put_entered hput
    rw [text, textIn_append hentered.is_object hentered.inside, textIn, JsonFrame.closed_text hclosed]
    simp only [List.append_assoc, List.cons_append]

theorem text_step {piece : JsonPiece} (h : z.step piece = some z') : z'.text = z.text ++ z.added piece := by
  cases piece with
  | scalar text =>
    obtain ⟨inner', hput, rfl⟩ := Option.map_eq_some_iff.mp h
    have hentered := JsonFrame.put_entered hput
    exact textIn_append hentered.is_object hentered.inside z.outer
  | string text =>
    obtain ⟨inner', hput, rfl⟩ := Option.map_eq_some_iff.mp h
    have hentered := JsonFrame.putString_entered hput
    exact textIn_append hentered.is_object hentered.inside z.outer
  | opened is_object =>
    rw [step] at h
    split at h
    · obtain rfl := Option.some.inj h
      rw [text, textIn, (JsonFrame.empty_inside is_object).1]
      rfl
    · cases h
  | closed is_object =>
    rw [step] at h
    split at h
    · exact text_close h
    · cases h

/-! ## Completion -/

/-- Each container stands where a value is due. -/
def Stacked (inner : JsonFrame) : List JsonFrame → Prop
  | [] => inner.is_object = false
  | frame :: outer => frame.takesValue ∧ Stacked frame outer

theorem stacked_same (hobject : inner'.is_object = inner.is_object) (h : Stacked inner outer) :
    Stacked inner' outer := by
  cases outer with
  | nil => exact hobject.trans h
  | cons frame outer => exact h

theorem stacked_step {piece : JsonPiece} (h : Stacked z.inner z.outer) (hstep : z.step piece = some z') :
    Stacked z'.inner z'.outer := by
  cases piece with
  | scalar text =>
    obtain ⟨inner', hput, rfl⟩ := Option.map_eq_some_iff.mp hstep
    exact stacked_same (JsonFrame.put_entered hput).is_object h
  | string text =>
    obtain ⟨inner', hput, rfl⟩ := Option.map_eq_some_iff.mp hstep
    exact stacked_same (JsonFrame.putString_entered hput).is_object h
  | opened is_object =>
    rw [step] at hstep
    split at hstep
    case isTrue htakes =>
      obtain rfl := Option.some.inj hstep
      exact ⟨htakes, h⟩
    case isFalse => cases hstep
  | closed is_object =>
    rw [step] at hstep
    split at hstep
    · obtain ⟨inner, outer⟩ := z
      cases outer with
      | nil => cases hstep
      | cons frame outer =>
        obtain ⟨frame', hput, rfl⟩ := Option.map_eq_some_iff.mp hstep
        obtain ⟨tree, -, hput⟩ := Option.bind_eq_some_iff.mp hput
        exact stacked_same (JsonFrame.put_entered hput).is_object h.2
    · cases hstep

/-- The containers are closed, after a value for the key that waits. -/
def closers : JsonFrame → List JsonFrame → List JsonPiece
  | _, [] => []
  | inner, frame :: outer => .closed inner.is_object :: closers frame outer

def completion (z : JsonStream) : List JsonPiece :=
  (if z.inner.closed = none then [.scalar (ascii "null")] else []) ++ closers z.inner z.outer

/-- Pieces for which there is room. -/
def run (room : JsonStream → JsonPiece → Bool) : List JsonPiece → JsonStream → Option JsonStream
  | [], z => some z
  | piece :: pieces, z => if room z piece then (z.step piece).bind (run room pieces) else none

variable {room : JsonStream → JsonPiece → Bool}

theorem run_cons {piece : JsonPiece} {pieces : List JsonPiece} :
    run room (piece :: pieces) z = some z' ↔
      room z piece ∧ ∃ next, z.step piece = some next ∧ run room pieces next = some z' := by
  rw [run]
  by_cases hroom : room z piece
  · rw [if_pos hroom, Option.bind_eq_some_iff]
    exact (and_iff_right hroom).symm
  · rw [if_neg hroom]
    simp [hroom]

theorem run_append {pieces pieces' : List JsonPiece} {next : JsonStream} (h : run room pieces z = some next)
    (h' : run room pieces' next = some z') : run room (pieces ++ pieces') z = some z' := by
  induction pieces generalizing z with
  | nil =>
    obtain rfl := Option.some.inj h
    exact h'
  | cons piece pieces ih =>
    obtain ⟨hroom, first, hstep, hrest⟩ := run_cons.mp h
    exact run_cons.mpr ⟨hroom, first, hstep, ih hrest⟩

theorem run_split {pieces pieces' : List JsonPiece} (h : run room (pieces ++ pieces') z = some z') :
    ∃ next, run room pieces z = some next ∧ run room pieces' next = some z' := by
  induction pieces generalizing z with
  | nil => exact ⟨z, rfl, h⟩
  | cons piece pieces ih =>
    obtain ⟨hroom, first, hstep, hrest⟩ := run_cons.mp h
    obtain ⟨next, hfirst, hlast⟩ := ih hrest
    exact ⟨next, run_cons.mpr ⟨hroom, first, hstep, hfirst⟩, hlast⟩

theorem closers_same (hobject : inner'.is_object = inner.is_object) (outer : List JsonFrame) :
    closers inner' outer = closers inner outer := by
  cases outer with
  | nil => rfl
  | cons frame outer => rw [closers, closers, hobject]

theorem closers_run (hroom : ∀ z is_object, room z (.closed is_object)) (hclosed : inner.closed.isSome)
    (h : Stacked inner outer) : ∃ z', run room (closers inner outer) ⟨inner, outer⟩ = some z' ∧ z'.outer = [] := by
  induction outer generalizing inner with
  | nil => exact ⟨⟨inner, []⟩, rfl, rfl⟩
  | cons frame outer ih =>
    obtain ⟨htakes, hstacked⟩ := h
    obtain ⟨tree, htree⟩ := Option.isSome_iff_exists.mp hclosed
    obtain ⟨frame', hput, hclosed'⟩ := JsonFrame.put_some htakes tree
    have hobject := (JsonFrame.put_entered hput).is_object
    obtain ⟨z', hrun, hlast⟩ := ih hclosed' (stacked_same hobject hstacked)
    refine ⟨z', run_cons.mpr ⟨hroom _ _, ⟨frame', outer⟩, ?_, ?_⟩, hlast⟩
    · rw [step, if_pos rfl, close, htree, Option.bind_some, hput, Option.map_some]
    · rw [← closers_same hobject]
      exact hrun

theorem completion_run (hroom : ∀ z is_object, room z (.closed is_object)) (h : Stacked z.inner z.outer)
    (hkey : z.inner.closed = none → ∀ text, room z (.scalar text)) :
    ∃ z', run room z.completion z = some z' ∧ z'.outer = [] := by
  unfold completion
  cases hclosed : z.inner.closed with
  | some tree =>
    rw [if_neg (Option.some_ne_none tree), List.nil_append]
    exact closers_run hroom (hclosed ▸ rfl) h
  | none =>
    have htakes : z.inner.takesValue := by
      obtain ⟨inner, outer⟩ := z
      cases inner with
      | array items => rfl
      | object members key =>
        cases key with
        | none => cases hclosed
        | some key => rfl
    obtain ⟨inner', hput, hclosed'⟩ := JsonFrame.put_some htakes (.scalar (ascii "null"))
    have hobject := (JsonFrame.put_entered hput).is_object
    obtain ⟨z', hrun, hlast⟩ := closers_run hroom hclosed' (stacked_same hobject h)
    refine ⟨z', ?_, hlast⟩
    rw [if_pos rfl, List.singleton_append]
    refine run_cons.mpr ⟨hkey hclosed _, ⟨inner', z.outer⟩, ?_, ?_⟩
    · rw [step, hput, Option.map_some]
    · rw [← closers_same hobject]
      exact hrun

/-- What every piece for which there is room keeps, every run keeps. -/
theorem run_invariant {inv : JsonStream → Prop}
    (hstep : ∀ z piece z', room z piece → z.step piece = some z' → inv z → inv z') {pieces : List JsonPiece}
    (h : run room pieces z = some z') (hz : inv z) : inv z' := by
  induction pieces generalizing z with
  | nil =>
    obtain rfl := Option.some.inj h
    exact hz
  | cons piece pieces ih =>
    obtain ⟨hroom, next, hnext, hrest⟩ := run_cons.mp h
    exact ih hrest (hstep z piece next hroom hnext hz)

theorem run_text {pieces : List JsonPiece} (h : run room pieces z = some z') : z.text <+: z'.text := by
  have hgrows (next : JsonStream) (piece : JsonPiece) (next' : JsonStream) (_ : room next piece)
      (hnext : next.step piece = some next') (hbegins : z.text <+: next.text) : z.text <+: next'.text := by
    rw [text_step hnext]
    exact hbegins.trans (List.prefix_append _ _)
  exact run_invariant hgrows h (List.prefix_refl _)

theorem run_stacked {pieces : List JsonPiece} (h : run room pieces z = some z') (hz : Stacked z.inner z.outer) :
    Stacked z'.inner z'.outer := by
  have hkept (next : JsonStream) (piece : JsonPiece) (next' : JsonStream) (_ : room next piece)
      (hnext : next.step piece = some next') (hstacked : Stacked next.inner next.outer) :
      Stacked next'.inner next'.outer :=
    stacked_step hstacked hnext
  exact run_invariant hkept h hz

/-- Outside all containers the text is a list of complete values. -/
theorem text_complete (h : Stacked z.inner z.outer) (houter : z.outer = []) :
    ∃ items, z.inner = .array items ∧ z.text = commas (itemTexts items) := by
  obtain ⟨inner, outer⟩ := z
  obtain rfl : outer = [] := houter
  cases inner with
  | array items => exact ⟨items, rfl, rfl⟩
  | object members key => cases h

end JsonStream

end CLib
