import WorkflowDsl.Document.Pointer

/-!
# The texts of pointers

An escaped key has no slash, and unescaping gives it back (`Pointer.unescape_escape`). So the text
of a pointer falls into its escaped keys at the slashes, and is read as the pointer again
(`Pointer.ofText?_text`). Different pointers have different texts.

What a text leads to from the root of a tree is what the pointer does that it denotes
(`Node.atText?`).
-/

namespace WorkflowDsl

namespace Pointer

/-! ## Escaped keys -/

/-- Every tilde is escaped, and then every slash. -/
theorem escape_eq_flatMap (cs : List Char) :
    escape cs = (cs.flatMap fun c => if c = '~' then ['~', '0'] else [c]).flatMap
      fun c => if c = '/' then ['~', '1'] else [c] := by
  induction cs with
  | nil => rfl
  | cons c cs ih =>
    rw [escape, List.flatMap_cons, List.flatMap_append, ← ih]
    by_cases ht : c = '~'
    · subst ht
      rfl
    · by_cases hs : c = '/'
      · subst hs
        rfl
      · simp [ht, hs]

theorem unescape_cons_of_ne {c : Char} (h : c ≠ '~') (cs : List Char) :
    unescape (c :: cs) = c :: unescape cs := by
  rw [unescape]
  · exact fun _ hc _ => h hc
  · exact fun _ hc _ => h hc

theorem unescape_escape (cs : List Char) : unescape (escape cs) = cs := by
  induction cs with
  | nil => rfl
  | cons c cs ih =>
    rw [escape]
    split
    · next h => rw [unescape, ih, beq_iff_eq.1 h]
    · next ht =>
      split
      · next h => rw [unescape, ih, beq_iff_eq.1 h]
      · rw [unescape_cons_of_ne (by simpa using ht), ih]

theorem slash_not_mem_escape (cs : List Char) : '/' ∉ escape cs := by
  induction cs with
  | nil => exact List.not_mem_nil
  | cons c cs ih =>
    rw [escape]
    split
    · simp [ih]
    · split
      · simp [ih]
      · next h => simpa [ih] using Ne.symm (beq_eq_false_iff_ne.1 (Bool.not_eq_true _ ▸ h))

/-- What has no tilde and no slash needs no escape. -/
theorem escape_eq_self {cs : List Char} (h : ∀ c ∈ cs, c ≠ '~' ∧ c ≠ '/') : escape cs = cs := by
  induction cs with
  | nil => rfl
  | cons c cs ih =>
    obtain ⟨hc, h⟩ := List.forall_mem_cons.1 h
    rw [escape, if_neg (by simpa using hc.1), if_neg (by simpa using hc.2), ih h]

/-- The digits of a number need no escape. -/
theorem escape_toString (i : Nat) : escape (toString i).toList = (toString i).toList := by
  refine escape_eq_self fun c hc => ?_
  rw [Nat.toString_eq_ofList_toDigits, String.toList_ofList] at hc
  have hd := Nat.isDigit_of_mem_toDigits (by decide) (by decide) hc
  constructor
  · rintro rfl
    exact absurd hd (by decide)
  · rintro rfl
    exact absurd hd (by decide)

/-! ## Texts -/

/-- A key as it is written behind a slash. -/
def escaped (key : String) : String := String.ofList (escape key.toList)

theorem toList_escaped (key : String) : (escaped key).toList = escape key.toList :=
  String.toList_ofList

theorem escaped_toString (i : Nat) : escaped (toString i) = toString i := by
  rw [escaped, escape_toString, String.ofList_toList]

theorem text_nil : text [] = "" := rfl

theorem text_cons (key : String) (p : Pointer) : text (key :: p) = "/" ++ escaped key ++ text p :=
  String.join_cons

theorem text_append (p q : Pointer) : text (p ++ q) = text p ++ text q := by
  rw [text, List.map_append, String.join_append]
  rfl

theorem toList_text_cons (key : String) (p : Pointer) :
    (text (key :: p)).toList = '/' :: (escape key.toList ++ (text p).toList) := by
  rw [text_cons, String.toList_append, String.toList_append, toList_escaped, List.append_assoc]
  rfl

/-! ## Reading a text -/

theorem parts_of_not_mem {cs : List Char} (h : '/' ∉ cs) (read : List Char) :
    parts read cs = [read.reverse ++ cs] := by
  induction cs generalizing read with
  | nil => rw [parts, List.append_nil]
  | cons c cs ih =>
    rw [List.mem_cons, not_or] at h
    rw [parts, if_neg (by simpa using Ne.symm h.1), ih h.2, List.reverse_cons, List.append_assoc]
    rfl

/-- What stands before the first slash is a part. -/
theorem parts_append {cs : List Char} (h : '/' ∉ cs) (read ds : List Char) :
    parts read (cs ++ '/' :: ds) = (read.reverse ++ cs) :: parts [] ds := by
  induction cs generalizing read with
  | nil => rw [List.nil_append, parts, if_pos (beq_self_eq_true _), List.append_nil]
  | cons c cs ih =>
    rw [List.mem_cons, not_or] at h
    rw [List.cons_append, parts, if_neg (by simpa using Ne.symm h.1), ih h.2, List.reverse_cons,
      List.append_assoc]
    rfl

/-- The parts of the text of a pointer are its escaped keys. -/
theorem parts_text (key : String) (p : Pointer) :
    parts [] (escape key.toList ++ (text p).toList) =
      (key :: p).map fun key => escape key.toList := by
  induction p generalizing key with
  | nil =>
    rw [text_nil, String.toList_empty, List.append_nil, parts_of_not_mem (slash_not_mem_escape _)]
    rfl
  | cons k p ih =>
    rw [toList_text_cons, parts_append (slash_not_mem_escape _), ih]
    rfl

/-- **The text of a pointer denotes it**, whatever characters its keys have. -/
theorem ofText?_text (p : Pointer) : ofText? p.text = some p := by
  cases p with
  | nil => rfl
  | cons key p =>
    rw [ofText?, toList_text_cons]
    have hk : (fun part => String.ofList (unescape part)) ∘
        (fun key : String => escape key.toList) = id := funext fun key => by
      rw [Function.comp_apply, unescape_escape, String.ofList_toList, id]
    show some ((parts [] _).map _) = _
    rw [parts_text, List.map_map, hk, List.map_id]

theorem text_injective : Function.Injective text := by
  intro p q h
  have hp := ofText?_text p
  rw [h, ofText?_text] at hp
  exact (Option.some.inj hp).symm

end Pointer

/-- What the text of a pointer leads to. -/
def Node.atText? (n : Node) (s : String) : Option Node :=
  (Pointer.ofText? s).bind (Node.at? · n)

theorem Node.atText?_text (n : Node) (p : Pointer) : n.atText? p.text = n.at? p := by
  rw [atText?, Pointer.ofText?_text, Option.bind_some]

end WorkflowDsl
