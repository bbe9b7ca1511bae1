import Mathlib.Tactic.IntervalCases

/-!
# Printed text

A format prints literal text, decimal numbers and hexadecimal words one after another. Two lists
of items that differ only in their values print different texts, as long as no number runs into
what follows it. Texts nest by their parentheses, and pieces printed one after the other into a
buffer of fixed size arrive whole exactly if all of them fit.
-/

namespace FormatText

/-! ## Digits -/

def digitValue (d : Char) : Nat := if d.isDigit then d.toNat - 48 else d.toNat - 87

/-- The number that digits of a base stand for. -/
def numberOf (base : Nat) (ds : List Char) : Nat :=
  ds.foldl (fun n d => base * n + digitValue d) 0

theorem digitValue_digitChar {n : Nat} (h : n < 16) : digitValue n.digitChar = n := by
  interval_cases n <;> rfl

theorem numberOf_append_singleton (base : Nat) (ds : List Char) (d : Char) :
    numberOf base (ds ++ [d]) = base * numberOf base ds + digitValue d := by
  rw [numberOf, List.foldl_append, List.foldl_cons, List.foldl_nil, numberOf]

theorem numberOf_toDigits {base : Nat} (hOne : 1 < base) (hBase : base ≤ 16) (n : Nat) :
    numberOf base (Nat.toDigits base n) = n := by
  induction n using Nat.strong_induction_on with
  | _ n ih =>
    rw [Nat.toDigits_eq_if hOne]
    split
    case isTrue hLt =>
      rw [← List.nil_append [n.digitChar], numberOf_append_singleton,
        digitValue_digitChar (by omega)]
      simp [numberOf]
    case isFalse hLe =>
      have hMod : n % base < base := Nat.mod_lt n (by omega)
      rw [numberOf_append_singleton, ih (n / base) (Nat.div_lt_self (by omega) hOne),
        digitValue_digitChar (by omega)]
      exact Nat.div_add_mod n base

theorem numberOf_leftpad (base k : Nat) (ds : List Char) :
    numberOf base (ds.leftpad k '0') = numberOf base ds := by
  have hZeros : ∀ m, (List.replicate m '0').foldl (fun n d => base * n + digitValue d) 0 = 0 := by
    intro m
    induction m with
    | zero => rfl
    | succ m ih => rw [List.replicate_succ, List.foldl_cons]; exact ih
  rw [List.leftpad, numberOf, List.foldl_append, hZeros, numberOf]

/-! ## Items -/

inductive TextItem where
  | lit (text : List Char)
  | udec (n : Nat)
  | sdec (n : Int)
  | hex8 (w : BitVec 32)
  deriving DecidableEq, Repr

/-- A number in base ten, with a sign in front of a negative one. -/
def signedDigits : Int → List Char
  | .ofNat n => Nat.toDigits 10 n
  | .negSucc n => '-' :: Nat.toDigits 10 (n + 1)

def hexDigits8 (w : BitVec 32) : List Char := (Nat.toDigits 16 w.toNat).leftpad 8 '0'

def TextItem.text : TextItem → List Char
  | .lit text => text
  | .udec n => Nat.toDigits 10 n
  | .sdec n => signedDigits n
  | .hex8 w => hexDigits8 w

def textOf (items : List TextItem) : List Char := items.flatMap TextItem.text

@[simp] theorem textOf_nil : textOf [] = [] := rfl

@[simp] theorem textOf_cons (x : TextItem) (xs : List TextItem) :
    textOf (x :: xs) = x.text ++ textOf xs := rfl

/-- An item without its value. -/
def TextItem.blank : TextItem → TextItem
  | .lit text => .lit text
  | .udec _ => .udec 0
  | .sdec _ => .sdec 0
  | .hex8 _ => .hex8 0

def numeral (d : Char) : Bool := d.isDigit || d == '-'

/-- The items start with no character of a decimal number. -/
def startsApart : List TextItem → Bool
  | [] => true
  | .lit (d :: _) :: _ => !numeral d
  | _ => false

/-- Every decimal number is followed by something that is no part of it. -/
def separated : List TextItem → Bool
  | [] => true
  | .udec _ :: xs => startsApart xs && separated xs
  | .sdec _ :: xs => startsApart xs && separated xs
  | _ :: xs => separated xs

theorem startsApart_blank : ∀ xs : List TextItem, startsApart (xs.map TextItem.blank) = startsApart xs
  | [] => rfl
  | .lit [] :: _ => rfl
  | .lit (_ :: _) :: _ => rfl
  | .udec _ :: _ => rfl
  | .sdec _ :: _ => rfl
  | .hex8 _ :: _ => rfl

theorem not_numeral_head {xs : List TextItem} (h : startsApart xs = true) :
    ∀ d ∈ (textOf xs).head?, numeral d = false := by
  intro d hd
  unfold startsApart at h
  split at h
  case h_1 => exact nomatch hd
  case h_2 => simpa [TextItem.text, ← show _ = d from Option.some.inj hd] using h
  case h_3 => exact nomatch h

/-! ## Values from the text -/

theorem numeral_of_mem_toDigits {n : Nat} {d : Char} (h : d ∈ Nat.toDigits 10 n) :
    numeral d = true := by
  rw [numeral, Nat.isDigit_of_mem_toDigits (by omega) (by omega) h, Bool.true_or]

theorem numeral_of_mem_signedDigits {n : Int} {d : Char} (h : d ∈ signedDigits n) :
    numeral d = true := by
  cases n with
  | ofNat n => exact numeral_of_mem_toDigits h
  | negSucc n =>
    rcases List.mem_cons.1 h with rfl | h
    · rfl
    · exact numeral_of_mem_toDigits h

theorem toDigits_ten_inj {m n : Nat} (h : Nat.toDigits 10 m = Nat.toDigits 10 n) : m = n := by
  rw [← numberOf_toDigits (show 1 < 10 by omega) (by omega) m, h,
    numberOf_toDigits (by omega) (by omega)]

theorem signedDigits_inj {m n : Int} (h : signedDigits m = signedDigits n) : m = n := by
  -- no number in base ten starts with a sign
  have hSign : ∀ a b : Nat, Nat.toDigits 10 a ≠ '-' :: Nat.toDigits 10 b := by
    intro a b hEq
    have hMem : '-' ∈ Nat.toDigits 10 a := hEq ▸ List.mem_cons_self
    exact absurd (Nat.isDigit_of_mem_toDigits (by omega) (by omega) hMem) (by decide)
  cases m with
  | ofNat m =>
    cases n with
    | ofNat n => rw [toDigits_ten_inj h]
    | negSucc n => exact absurd h (hSign m (n + 1))
  | negSucc m =>
    cases n with
    | ofNat n => exact absurd h.symm (hSign n (m + 1))
    | negSucc n =>
      have hEq := toDigits_ten_inj (List.cons.inj h).2
      rw [Nat.succ_inj.1 hEq]

theorem length_hexDigits8 (w : BitVec 32) : (hexDigits8 w).length = 8 := by
  have hLe : (Nat.toDigits 16 w.toNat).length ≤ 8 :=
    (Nat.length_toDigits_le_iff (by omega) (by omega)).2 w.isLt
  rw [hexDigits8, List.leftpad, List.length_append, List.length_replicate]
  omega

theorem hexDigits8_inj {v w : BitVec 32} (h : hexDigits8 v = hexDigits8 w) : v = w := by
  apply BitVec.eq_of_toNat_eq
  have hNumber := congrArg (numberOf 16) h
  rw [hexDigits8, hexDigits8, numberOf_leftpad, numberOf_leftpad] at hNumber
  rwa [numberOf_toDigits (by omega) (by omega), numberOf_toDigits (by omega) (by omega)] at hNumber

/-- A number ends where the numerals do. -/
theorem append_inj_numeral {ds ds' rest rest' : List Char} (hDs : ∀ d ∈ ds, numeral d = true)
    (hDs' : ∀ d ∈ ds', numeral d = true) (hRest : ∀ d ∈ rest.head?, numeral d = false)
    (hRest' : ∀ d ∈ rest'.head?, numeral d = false) (h : ds ++ rest = ds' ++ rest') :
    ds = ds' ∧ rest = rest' := by
  have hTake : ∀ {ds rest : List Char}, (∀ d ∈ ds, numeral d = true) →
      (∀ d ∈ rest.head?, numeral d = false) → (ds ++ rest).takeWhile numeral = ds := by
    intro ds rest hDs hRest
    rw [List.takeWhile_append_of_pos hDs]
    cases rest with
    | nil => rw [List.takeWhile_nil, List.append_nil]
    | cons d rest =>
      rw [List.takeWhile_cons_of_neg (by rw [hRest d rfl]; exact Bool.false_ne_true),
        List.append_nil]
  have hEq : ds = ds' := by rw [← hTake hDs hRest, h, hTake hDs' hRest']
  rw [hEq] at h
  exact ⟨hEq, List.append_cancel_left h⟩

/-- Items of one shape with one text are the same items. -/
theorem textOf_inj {xs ys : List TextItem} (hShape : xs.map TextItem.blank = ys.map TextItem.blank)
    (hSeparated : separated xs = true) (h : textOf xs = textOf ys) : xs = ys := by
  induction xs generalizing ys with
  | nil =>
    cases ys with
    | nil => rfl
    | cons y ys => exact nomatch hShape
  | cons x xs ih =>
    cases ys with
    | nil => exact nomatch hShape
    | cons y ys =>
      obtain ⟨hHead, hTail⟩ := List.cons.inj hShape
      rw [textOf_cons, textOf_cons] at h
      have hApart : startsApart xs = startsApart ys := by
        rw [← startsApart_blank xs, hTail, startsApart_blank]
      cases x with
      | lit text =>
        cases y <;> simp only [TextItem.blank, reduceCtorEq, TextItem.lit.injEq] at hHead
        rw [hHead] at h ⊢
        rw [ih hTail hSeparated (List.append_cancel_left h)]
      | udec m =>
        cases y <;> simp only [TextItem.blank, reduceCtorEq] at hHead
        obtain ⟨hXs, hSep⟩ := Bool.and_eq_true_iff.1 hSeparated
        obtain ⟨hDigits, hRest⟩ := append_inj_numeral (fun _ => numeral_of_mem_toDigits)
          (fun _ => numeral_of_mem_toDigits) (not_numeral_head hXs)
          (not_numeral_head (hApart ▸ hXs)) h
        rw [toDigits_ten_inj hDigits, ih hTail hSep hRest]
      | sdec m =>
        cases y <;> simp only [TextItem.blank, reduceCtorEq] at hHead
        obtain ⟨hXs, hSep⟩ := Bool.and_eq_true_iff.1 hSeparated
        obtain ⟨hDigits, hRest⟩ := append_inj_numeral (fun _ => numeral_of_mem_signedDigits)
          (fun _ => numeral_of_mem_signedDigits) (not_numeral_head hXs)
          (not_numeral_head (hApart ▸ hXs)) h
        rw [signedDigits_inj hDigits, ih hTail hSep hRest]
      | hex8 v =>
        cases y <;> simp only [TextItem.blank, reduceCtorEq] at hHead
        obtain ⟨hDigits, hRest⟩ := List.append_inj h
          (by rw [TextItem.text, TextItem.text, length_hexDigits8, length_hexDigits8])
        rw [hexDigits8_inj hDigits, ih hTail hSeparated hRest]

/-! ## Parentheses -/

/-- The depth of nesting after a text, none where a parenthesis closes nothing. -/
def depthAfter (depth : Nat) : List Char → Option Nat
  | [] => some depth
  | d :: text =>
    if d = '(' then depthAfter (depth + 1) text
    else if d = ')' then if depth = 0 then none else depthAfter (depth - 1) text
    else depthAfter depth text

def Balanced (text : List Char) : Prop := depthAfter 0 text = some 0

instance (text : List Char) : Decidable (Balanced text) :=
  inferInstanceAs (Decidable (depthAfter 0 text = some 0))

theorem depthAfter_append (depth : Nat) (s t : List Char) :
    depthAfter depth (s ++ t) = (depthAfter depth s).bind (depthAfter · t) := by
  induction s generalizing depth with
  | nil => rfl
  | cons d s ih =>
    rw [List.cons_append, depthAfter, depthAfter]
    split
    · exact ih _
    · split
      · split
        · rfl
        · exact ih _
      · exact ih _

theorem depthAfter_add {depth after : Nat} {text : List Char}
    (h : depthAfter depth text = some after) (k : Nat) :
    depthAfter (depth + k) text = some (after + k) := by
  induction text generalizing depth with
  | nil => rw [depthAfter] at h ⊢; rw [Option.some.inj h]
  | cons d text ih =>
    rw [depthAfter] at h ⊢
    split at h
    case isTrue hOpen =>
      rw [if_pos hOpen, Nat.add_right_comm]
      exact ih h
    case isFalse hOpen =>
      rw [if_neg hOpen]
      split at h
      case isTrue hClose =>
        rw [if_pos hClose]
        split at h
        · exact nomatch h
        · rw [if_neg (by omega), Nat.sub_add_comm (by omega)]
          exact ih h
      case isFalse hClose =>
        rw [if_neg hClose]
        exact ih h

theorem Balanced.depthAfter_eq {text : List Char} (h : Balanced text) (depth : Nat) :
    depthAfter depth text = some depth := by
  simpa only [Nat.zero_add] using depthAfter_add h depth

theorem depthAfter_plain {text : List Char} (h : ∀ d ∈ text, d ≠ '(' ∧ d ≠ ')') (depth : Nat) :
    depthAfter depth text = some depth := by
  induction text with
  | nil => rfl
  | cons d text ih =>
    obtain ⟨hd, hText⟩ := List.forall_mem_cons.1 h
    rw [depthAfter, if_neg hd.1, if_neg hd.2]
    exact ih hText

theorem balanced_plain {text : List Char} (h : ∀ d ∈ text, d ≠ '(' ∧ d ≠ ')') : Balanced text :=
  depthAfter_plain h 0

theorem Balanced.append {s t : List Char} (hs : Balanced s) (ht : Balanced t) :
    Balanced (s ++ t) := by
  rw [Balanced, depthAfter_append, hs.depthAfter_eq, Option.bind_some, ht.depthAfter_eq]

theorem balanced_flatten {texts : List (List Char)} (h : ∀ text ∈ texts, Balanced text) :
    Balanced texts.flatten := by
  induction texts with
  | nil => rfl
  | cons text texts ih =>
    obtain ⟨hText, hTexts⟩ := List.forall_mem_cons.1 h
    exact hText.append (ih hTexts)

/-- Text in parentheses, with what opens them. -/
theorem Balanced.wrap {s t : List Char} (hOpen : depthAfter 0 s = some 1) (ht : Balanced t) :
    Balanced (s ++ (t ++ ")".toList)) := by
  rw [Balanced, depthAfter_append, hOpen, Option.bind_some, depthAfter_append, ht.depthAfter_eq]
  rfl

theorem balanced_signedDigits (n : Int) : Balanced (signedDigits n) := by
  apply balanced_plain
  intro d hd
  have hNumeral := numeral_of_mem_signedDigits hd
  refine ⟨?_, ?_⟩
  all_goals
    rintro rfl
    exact absurd hNumeral (by decide)

theorem exists_digitChar_of_mem_toDigits {n : Nat} {d : Char} (h : d ∈ Nat.toDigits 16 n) :
    ∃ k < 16, d = k.digitChar := by
  induction n using Nat.strong_induction_on with
  | _ n ih =>
    rw [Nat.toDigits_eq_if (by omega)] at h
    split at h
    case isTrue hLt => exact ⟨n, hLt, List.mem_singleton.1 h⟩
    case isFalse hLe =>
      rcases List.mem_append.1 h with h | h
      · exact ih (n / 16) (Nat.div_lt_self (by omega) (by omega)) h
      · exact ⟨n % 16, Nat.mod_lt n (by omega), List.mem_singleton.1 h⟩

/-- No digit is a parenthesis. -/
theorem plain_of_mem_toDigits {n : Nat} {d : Char} (h : d ∈ Nat.toDigits 16 n) :
    d ≠ '(' ∧ d ≠ ')' := by
  have hDigit : ∀ k < 16, k.digitChar ≠ '(' ∧ k.digitChar ≠ ')' := by decide
  obtain ⟨k, hk, rfl⟩ := exists_digitChar_of_mem_toDigits h
  exact hDigit k hk

theorem balanced_hexDigits8 (w : BitVec 32) : Balanced (hexDigits8 w) := by
  apply balanced_plain
  intro d hd
  rcases List.mem_append.1 hd with hd | hd
  · rw [List.eq_of_mem_replicate hd]
    decide
  · exact plain_of_mem_toDigits hd

/-! ## Buffers -/

/-- Prints a piece at an offset of a buffer, which then holds the text and has the offset after it.
As with `snprintf` the text is cut to the buffer and the offset counts all of the piece. From an
offset beyond the buffer there is no room to name. -/
def printAt (size : Nat) (st : List Char × Nat) (piece : List Char) : Option (List Char × Nat) :=
  if st.2 ≤ size then some ((st.1 ++ piece).take (size - 1), st.2 + piece.length) else none

theorem take_append_take (k : Nat) (s t : List Char) :
    (s.take k ++ t).take k = (s ++ t).take k := by
  rcases Nat.le_total s.length k with h | h
  · rw [List.take_of_length_le h]
  · rw [List.take_append_of_le_length (by rw [List.length_take]; omega), List.take_take,
      Nat.min_self, List.take_append_of_le_length h]

theorem printAt_text {size : Nat} {pieces : List (List Char)} (text : List Char)
    {st : List Char × Nat}
    (h : pieces.foldlM (printAt size) (text.take (size - 1), text.length) = some st) :
    st.1 = (text ++ pieces.flatten).take (size - 1) := by
  induction pieces generalizing text with
  | nil =>
    rw [List.foldlM_nil] at h
    rw [← Option.some.inj h, List.flatten_nil, List.append_nil]
  | cons piece pieces ih =>
    rw [List.foldlM_cons, printAt] at h
    split at h
    case isFalse => exact nomatch h
    case isTrue =>
      rw [take_append_take, ← List.length_append] at h
      rw [List.flatten_cons, ← List.append_assoc]
      exact ih _ h

theorem printAt_fits {size : Nat} {pieces : List (List Char)} (text : List Char)
    (h : (text ++ pieces.flatten).length ≤ size) :
    ∃ st, pieces.foldlM (printAt size) (text.take (size - 1), text.length) = some st := by
  induction pieces generalizing text with
  | nil => exact ⟨_, rfl⟩
  | cons piece pieces ih =>
    rw [List.flatten_cons, ← List.append_assoc] at h
    obtain ⟨st, hSt⟩ := ih _ h
    refine ⟨st, ?_⟩
    rw [List.length_append, List.length_append] at h
    rw [List.foldlM_cons, printAt, if_pos (by dsimp only; omega), take_append_take,
      ← List.length_append]
    exact hSt

/-- Pieces arrive whole exactly if all of them fit, with the zero at the end. -/
theorem printAt_whole_iff {size : Nat} (hSize : 0 < size) (pieces : List (List Char)) :
    (pieces.foldlM (printAt size) ([], 0)).map Prod.fst = some pieces.flatten ↔
      pieces.flatten.length < size := by
  constructor
  · intro h
    obtain ⟨st, hSt, hText⟩ := Option.map_eq_some_iff.1 h
    have hTake := printAt_text [] (by rw [List.take_nil]; exact hSt)
    rw [hText, List.nil_append] at hTake
    have hLength := congrArg List.length hTake
    rw [List.length_take] at hLength
    omega
  · intro h
    have hFits : ([] ++ pieces.flatten).length ≤ size := by
      rw [List.nil_append]
      omega
    obtain ⟨st, hSt⟩ := printAt_fits [] hFits
    have hTake := printAt_text [] hSt
    rw [List.nil_append, List.take_of_length_le (by omega)] at hTake
    rw [List.take_nil] at hSt
    rw [List.length_nil] at hSt
    rw [hSt, Option.map_some, hTake]

end FormatText
