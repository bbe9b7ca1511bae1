import Calynda.Lib.FormatText

/-!
# Strings of C

A string is the list of its characters in front of the terminator. Prints into a buffer and
appends to one keep what fits; searches split the string at the first or the last place.
-/

namespace CString

/-- The largest value of an `int`. -/
def intMax : Nat := 2 ^ 31 - 1

/-- What a buffer of `n` bytes holds after a print. -/
def snprintf (n : Nat) (text : List Char) : List Char := text.take (n - 1)

theorem snprintf_of_lt {n : Nat} {text : List Char} (h : text.length < n) :
    snprintf n text = text :=
  List.take_of_length_le (by omega)

theorem length_snprintf_lt {n : Nat} (hPos : 0 < n) (text : List Char) :
    (snprintf n text).length < n := by
  rw [snprintf, List.length_take]
  omega

/-- A buffer of `n` bytes after an append that stops at its end. -/
def strncat (n : Nat) (dst src : List Char) : List Char := dst ++ src.take (n - dst.length - 1)

theorem strncat_of_lt {n : Nat} {dst src : List Char} (h : dst.length + src.length < n) :
    strncat n dst src = dst ++ src := by
  rw [strncat, List.take_of_length_le (by omega)]

/-- The string in front of the first place where `pat` starts, and the string from there on. -/
def strstr (pat : List Char) : List Char → Option (List Char × List Char)
  | [] => if pat = [] then some ([], []) else none
  | c :: s =>
    if pat.isPrefixOf (c :: s) then some ([], c :: s)
    else (strstr pat s).map fun (before, found) => (c :: before, found)

theorem strstr_some {pat s before found : List Char} (h : strstr pat s = some (before, found)) :
    s = before ++ found ∧ pat <+: found := by
  induction s generalizing before with
  | nil =>
    rw [strstr] at h
    split at h
    case isTrue hPat => cases h; exact ⟨rfl, hPat ▸ List.prefix_refl []⟩
    case isFalse => exact nomatch h
  | cons c s ih =>
    rw [strstr] at h
    split at h
    case isTrue hPat => cases h; exact ⟨rfl, List.isPrefixOf_iff_prefix.1 hPat⟩
    case isFalse =>
      obtain ⟨⟨b, f⟩, hSub, hEq⟩ := Option.map_eq_some_iff.1 h
      cases hEq
      obtain ⟨hs, hPat⟩ := ih hSub
      exact ⟨by rw [List.cons_append, ← hs], hPat⟩

/-- No earlier place starts with the pattern. -/
theorem strstr_first {pat s before found : List Char} (h : strstr pat s = some (before, found))
    {k : Nat} (hk : k < before.length) : ¬ pat <+: s.drop k := by
  induction s generalizing before k with
  | nil =>
    rw [strstr] at h
    split at h
    case isTrue => cases h; exact absurd hk (Nat.not_lt_zero k)
    case isFalse => exact nomatch h
  | cons c s ih =>
    rw [strstr] at h
    split at h
    case isTrue => cases h; exact absurd hk (Nat.not_lt_zero k)
    case isFalse hNot =>
      obtain ⟨⟨b, f⟩, hSub, hEq⟩ := Option.map_eq_some_iff.1 h
      cases hEq
      cases k with
      | zero => exact fun hPat => hNot (List.isPrefixOf_iff_prefix.2 hPat)
      | succ k => exact ih hSub (Nat.lt_of_succ_lt_succ hk)

theorem strstr_none {pat s : List Char} (h : strstr pat s = none) {t : List Char} (ht : t <:+ s) :
    ¬ pat <+: t := by
  induction s with
  | nil =>
    rw [List.suffix_nil.1 ht, List.prefix_nil]
    rintro rfl
    exact nomatch h
  | cons c s ih =>
    rw [strstr] at h
    split at h
    case isTrue => exact nomatch h
    case isFalse hNot =>
      rcases List.suffix_cons_iff.1 ht with rfl | ht
      · exact fun hPat => hNot (List.isPrefixOf_iff_prefix.2 hPat)
      · exact ih (Option.map_eq_none_iff.1 h) ht

/-! ## Texts joined by a separator -/

theorem intercalate_append (sep a b : List Char) (texts : List (List Char)) :
    sep.intercalate ((a ++ sep ++ b) :: texts) = sep.intercalate (a :: b :: texts) := by
  rw [List.intercalate_cons_cons]
  cases texts with
  | nil => rw [List.intercalate_singleton, List.intercalate_singleton]
  | cons text texts =>
    rw [List.intercalate_cons_cons, List.intercalate_cons_cons]
    simp only [List.append_assoc]

theorem length_le_intercalate (sep a : List Char) (texts : List (List Char)) :
    a.length ≤ (sep.intercalate (a :: texts)).length := by
  cases texts with
  | nil => rw [List.intercalate_singleton]
  | cons text texts =>
    rw [List.intercalate_cons_cons, List.length_append, List.length_append]
    omega

/-- One more text behind the separator, in a buffer that holds all of them. -/
theorem strncat_intercalate {n : Nat} {sep a b : List Char} {texts : List (List Char)}
    (h : (sep.intercalate (a :: b :: texts)).length < n) :
    strncat n (strncat n a sep) b = a ++ sep ++ b := by
  rw [← intercalate_append] at h
  have hLe := length_le_intercalate sep (a ++ sep ++ b) texts
  rw [List.length_append, List.length_append] at hLe
  have hSep : strncat n a sep = a ++ sep := strncat_of_lt (by omega)
  rw [hSep, strncat_of_lt (by rw [List.length_append]; omega)]

/-! ## A number behind a separator -/

/-- Where the separator does not come again, it is found from the end. -/
theorem append_inj_of_not_mem {sep : Char} {a b ds es : List Char} (hDs : sep ∉ ds)
    (hEs : sep ∉ es) (h : a ++ sep :: ds = b ++ sep :: es) : a = b ∧ ds = es := by
  rcases List.append_eq_append_iff.1 h with ⟨mid, hb, hMid⟩ | ⟨mid, ha, hMid⟩
  · cases mid with
    | nil =>
      rw [List.append_nil] at hb
      exact ⟨hb.symm, (List.cons.inj hMid).2⟩
    | cons d mid =>
      refine absurd ?_ hDs
      rw [(List.cons.inj hMid).2]
      exact List.mem_append_right _ List.mem_cons_self
  · cases mid with
    | nil =>
      rw [List.append_nil] at ha
      exact ⟨ha, (List.cons.inj hMid).2.symm⟩
    | cons d mid =>
      refine absurd ?_ hEs
      rw [(List.cons.inj hMid).2]
      exact List.mem_append_right _ List.mem_cons_self

/-- A name with a number behind an underscore. -/
def numbered (name : List Char) (k : Nat) : List Char := name ++ '_' :: Nat.toDigits 10 k

theorem underscore_not_mem_toDigits (n : Nat) : '_' ∉ Nat.toDigits 10 n := fun h =>
  absurd (FormatText.numeral_of_mem_toDigits h) (by decide)

theorem numbered_inj {a b : List Char} {j k : Nat} (h : numbered a j = numbered b k) :
    a = b ∧ j = k := by
  obtain ⟨hName, hDigits⟩ := append_inj_of_not_mem (underscore_not_mem_toDigits j)
    (underscore_not_mem_toDigits k) h
  exact ⟨hName, FormatText.toDigits_ten_inj hDigits⟩

theorem numbered_ne (a : List Char) (k : Nat) : numbered a k ≠ a := fun h => by
  have hLength := congrArg List.length h
  rw [numbered, List.length_append, List.length_cons] at hLength
  omega

end CString
