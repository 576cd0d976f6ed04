import Interpose.Json.Number
import Interpose.Json.Parser
import Interpose.Json.Printer

/-!
# Whole numbers and their numerals

The numeral of a whole number is its decimal text, it is read back from that text, and it stands for
the number.
-/

namespace Interpose.Json

/-- A text that a number in front of it does not run into. -/
def Ends (s : List Char) : Prop :=
  ∀ c ∈ s.head?, c.isDigit = false ∧ c ≠ '.' ∧ c ≠ 'e' ∧ c ≠ 'E'

/-! ### Digits -/

theorem takeDigits_append {digits rest : List Char} (acc : List Char)
    (hdigits : ∀ c ∈ digits, c.isDigit = true) (hrest : ∀ c ∈ rest.head?, c.isDigit = false) :
    takeDigits acc (digits ++ rest) = (acc.reverse ++ digits, rest) := by
  induction digits generalizing acc with
  | nil =>
    cases rest with
    | nil => simp [takeDigits]
    | cons c rest => simp [takeDigits, hrest c rfl]
  | cons c digits ih =>
    obtain ⟨hc, hdigits⟩ := List.forall_mem_cons.1 hdigits
    rw [List.cons_append, takeDigits, if_pos hc, ih _ hdigits, List.reverse_cons,
      List.append_assoc]
    rfl

theorem parseWhole_append {digits rest : List Char} (hne : digits ≠ [])
    (hdigits : ∀ c ∈ digits, c.isDigit = true) (hzero : digits.head? = some '0' → digits = ['0'])
    (hrest : ∀ c ∈ rest.head?, c.isDigit = false) :
    parseWhole (digits ++ rest) = some (digits, rest) := by
  unfold parseWhole
  rw [takeDigits_append [] hdigits hrest, List.reverse_nil, List.nil_append]
  split
  · rename_i heq
    cases heq
    exact absurd rfl hne
  · rename_i heq
    cases heq
    rfl
  · rename_i hmore heq
    cases heq
    exact absurd (List.cons.inj (hzero rfl)).2 hmore
  · rename_i heq
    cases heq
    rfl

theorem parseFraction_of_ends {rest : List Char} (hrest : Ends rest) :
    parseFraction rest = some ([], rest) := by
  unfold parseFraction
  split
  · exact absurd rfl (hrest _ rfl).2.1
  · rfl

theorem parseExponent_of_ends {rest : List Char} (hrest : Ends rest) :
    parseExponent rest = some (none, rest) := by
  unfold parseExponent
  split
  case h_7 => rfl
  all_goals
    obtain ⟨_, _, he, hE⟩ := hrest _ rfl
    first | exact absurd rfl he | exact absurd rfl hE

/-! ### Numerals of whole numbers -/

theorem head?_toDigits_ne_zero {n : Nat} (hn : 0 < n) :
    (Nat.toDigits 10 n).head? ≠ some '0' := by
  induction n using Nat.strongRecOn with
  | ind n ih =>
    by_cases hlt : n < 10
    · have hchar : ∀ k < 10, 0 < k → k.digitChar ≠ '0' := by decide
      rw [Nat.toDigits_of_lt_base hlt]
      exact fun h => hchar n hlt hn (Option.some.inj h)
    · have hle : 10 ≤ n := Nat.le_of_not_lt hlt
      have hrec := ih (n / 10) (by omega) (by omega)
      obtain ⟨c, digits, hdigits⟩ := List.exists_cons_of_ne_nil
        (Nat.toDigits_ne_nil (n := n / 10) (b := 10))
      rw [hdigits] at hrec
      rw [Nat.toDigits_of_base_le (by decide) hle, hdigits]
      exact hrec

theorem isDigit_of_mem_toDigits (n : Nat) : ∀ c ∈ Nat.toDigits 10 n, c.isDigit = true :=
  fun _ hc => Nat.isDigit_of_mem_toDigits (by decide) (by decide) hc

theorem parseUnsigned_toDigits (negative : Bool) (n : Nat) {rest : List Char} (hrest : Ends rest) :
    parseUnsigned negative (Nat.toDigits 10 n ++ rest) =
      some (⟨negative, Nat.toDigits 10 n, [], none⟩, rest) := by
  have hzero : (Nat.toDigits 10 n).head? = some '0' → Nat.toDigits 10 n = ['0'] := by
    cases n with
    | zero => exact fun _ => rfl
    | succ n => exact fun h => absurd h (head?_toDigits_ne_zero n.succ_pos)
  have hbehind : ∀ c ∈ rest.head?, c.isDigit = false := fun c hc => (hrest c hc).1
  have hwhole := parseWhole_append Nat.toDigits_ne_nil (isDigit_of_mem_toDigits n) hzero hbehind
  unfold parseUnsigned
  simp only [hwhole, Option.bind_eq_bind, Option.bind_some, parseFraction_of_ends hrest,
    parseExponent_of_ends hrest]
  rfl

theorem text_ofInt (n : Int) : (Numeral.ofInt n).text = toString n := by
  rw [Int.toString_eq_repr]
  cases n with
  | ofNat n => simp [Numeral.text, Numeral.ofInt, Int.repr, Nat.repr]
  | negSucc n =>
    have hsign : Int.negSucc n < 0 := Int.negSucc_lt_zero n
    rw [← String.toList_inj]
    simp [Numeral.text, Numeral.ofInt, hsign, Int.repr, Nat.repr]

theorem toList_text_ofInt (n : Int) : (Numeral.ofInt n).text.toList =
    (if n < 0 then ['-'] else []) ++ Nat.toDigits 10 n.natAbs := by
  simp [Numeral.text, Numeral.ofInt]

/-- The first character of the text of a number. -/
theorem exists_toList_toString (n : Int) :
    ∃ c s, (toString n).toList = c :: s ∧ (c = '-' ∨ c.isDigit = true) := by
  rw [← text_ofInt, toList_text_ofInt]
  split
  · exact ⟨'-', _, rfl, .inl rfl⟩
  · obtain ⟨c, digits, hdigits⟩ := List.exists_cons_of_ne_nil
      (Nat.toDigits_ne_nil (n := n.natAbs) (b := 10))
    rw [hdigits]
    exact ⟨c, digits, rfl,
      .inr (isDigit_of_mem_toDigits n.natAbs c (hdigits ▸ List.mem_cons_self))⟩

theorem parseNumeral_append (n : Int) {rest : List Char} (hrest : Ends rest) :
    parseNumeral ((toString n).toList ++ rest) = some (.ofInt n, rest) := by
  have hunsigned := parseUnsigned_toDigits (decide (n < 0)) n.natAbs hrest
  rw [← text_ofInt, toList_text_ofInt, Numeral.ofInt]
  split
  · rename_i hn
    rw [decide_eq_true hn] at hunsigned ⊢
    exact hunsigned
  · rename_i hn
    rw [decide_eq_false hn] at hunsigned ⊢
    unfold parseNumeral
    split
    · rename_i heq
      -- no digit is a sign
      obtain ⟨c, digits, hdigits⟩ := List.exists_cons_of_ne_nil
        (Nat.toDigits_ne_nil (n := n.natAbs) (b := 10))
      rw [hdigits] at heq
      cases heq
      have hdigit := isDigit_of_mem_toDigits n.natAbs '-' (hdigits ▸ List.mem_cons_self)
      exact absurd hdigit (by decide)
    · exact hunsigned

theorem digitsValue_toDigits (n : Nat) : digitsValue (Nat.toDigits 10 n) = n :=
  Nat.ofDigitChars_toDigits (by decide) (by decide)

theorem int?_ofInt (n : Int) : (Numeral.ofInt n).int? = some n := by
  simp only [Numeral.int?, Numeral.ofInt, digitsValue_toDigits]
  by_cases hn : n < 0
  · have hne : n.natAbs ≠ 0 := by omega
    simp only [hn, decide_true, if_true, if_neg hne]
    congr 1
    omega
  · simp only [hn, decide_false, Bool.false_eq_true, if_false]
    congr 1
    omega

theorem nat_eq_int (n : Nat) : nat n = int n := by
  have hsign : ¬(n : Int) < 0 := by omega
  simp only [nat, int, Numeral.ofNat, Numeral.ofInt, Int.natAbs_natCast, decide_eq_false hsign]

end Interpose.Json
