import Interpose.Text.Quoted
import Interpose.Proofs.Json.Text

/-!
# Quoted text is read back

A quoted text has, between its quotes, one piece for each character: the character itself, or an
escape that begins with a backslash and tells the character. Neither a quote nor a backslash stands
for itself, so a reader knows where each piece ends, and gets every text back. Which characters are
escaped plays no part.
-/

namespace Interpose.Text

/-- Where a reader of a quoted text is: between two pieces, behind a backslash, behind the letter
that announces a code point, or among its digits, with the number that they make so far. -/
inductive Inside where
  | text
  | escape
  | codePoint
  | digits (n : Nat)

/-- The character of a short escape. Quotes and backslashes are escaped by themselves. -/
def shortEscape (c : Char) : Char :=
  if c = '0' then '\x00' else if c = 't' then '\t' else if c = 'r' then '\r'
  else if c = 'n' then '\n' else c

/-- The characters of a quoted text from a place inside it up to its end, which is a quote. -/
def unquoteFrom : Inside → List Char → Option (List Char)
  | _, [] => none
  | .text, c :: rest =>
    if c = '"' then (if rest = [] then some [] else none)
    else if c = '\\' then unquoteFrom .escape rest
    else (unquoteFrom .text rest).map (c :: ·)
  | .escape, c :: rest =>
    if c = 'u' then unquoteFrom .codePoint rest
    else (unquoteFrom .text rest).map (shortEscape c :: ·)
  | .codePoint, _ :: rest => unquoteFrom (.digits 0) rest
  | .digits n, c :: rest =>
    match Json.hexValue? c with
    | some d => unquoteFrom (.digits (16 * n + d)) rest
    | none => (unquoteFrom .text rest).map (Char.ofNat n :: ·)

def unquote? (s : String) : Option String :=
  match s.toList with
  | '"' :: rest => (unquoteFrom .text rest).map String.ofList
  | _ => none

theorem unquoteFrom_digitChar {d : Nat} (hd : d < 16) (n : Nat) (rest : List Char) :
    unquoteFrom (.digits n) (d.digitChar :: rest) = unquoteFrom (.digits (16 * n + d)) rest := by
  rw [unquoteFrom, Json.hexValue?_digitChar d hd]

theorem unquoteFrom_toDigits (n : Nat) (rest : List Char) :
    unquoteFrom (.digits 0) (Nat.toDigits 16 n ++ rest) = unquoteFrom (.digits n) rest := by
  induction n using Nat.strongRecOn generalizing rest with
  | ind n ih =>
    by_cases hlt : n < 16
    · have hfirst := unquoteFrom_digitChar hlt 0 rest
      rw [Nat.mul_zero, Nat.zero_add] at hfirst
      rw [Nat.toDigits_of_lt_base hlt]
      exact hfirst
    · have hle : 16 ≤ n := Nat.le_of_not_lt hlt
      have hlast := unquoteFrom_digitChar (Nat.mod_lt n (by decide : 0 < 16)) (n / 16) rest
      rw [Nat.div_add_mod] at hlast
      rw [Nat.toDigits_of_base_le (by decide) hle, List.append_assoc, ih (n / 16) (by omega)]
      exact hlast

theorem unquoteFrom_codePointEscape (c : Char) (rest : List Char) :
    unquoteFrom .text (codePointEscape c ++ rest) = (unquoteFrom .text rest).map (c :: ·) := by
  have hdigits := unquoteFrom_toDigits c.toNat ('\x7d' :: rest)
  have hend : unquoteFrom (.digits c.toNat) ('\x7d' :: rest) =
      (unquoteFrom .text rest).map (Char.ofNat c.toNat :: ·) := rfl
  rw [hend, Char.ofNat_toNat] at hdigits
  rw [← hdigits, codePointEscape]
  simp only [List.cons_append, List.append_assoc]
  rfl

theorem unquoteFrom_quotedChar (c : Char) (rest : List Char) :
    unquoteFrom .text (quotedChar c ++ rest) = (unquoteFrom .text rest).map (c :: ·) := by
  -- six characters have a short escape; of the others some stand for themselves
  by_cases hshort : c = '\x00' ∨ c = '\t' ∨ c = '\r' ∨ c = '\n' ∨ c = '"' ∨ c = '\\'
  · rcases hshort with rfl | rfl | rfl | rfl | rfl | rfl <;> rfl
  · simp only [not_or] at hshort
    obtain ⟨hnull, htab, hreturn, hline, hquote, hbackslash⟩ := hshort
    unfold quotedChar
    rw [if_neg hnull, if_neg htab, if_neg hreturn, if_neg hline, if_neg hquote, if_neg hbackslash]
    split
    · rw [List.singleton_append, unquoteFrom, if_neg hquote, if_neg hbackslash]
    · exact unquoteFrom_codePointEscape c rest

theorem unquoteFrom_flatMap (cs : List Char) :
    unquoteFrom .text (cs.flatMap quotedChar ++ ['"']) = some cs := by
  induction cs with
  | nil => rfl
  | cons c cs ih =>
    rw [List.flatMap_cons, List.append_assoc, unquoteFrom_quotedChar, ih, Option.map_some]

theorem unquote?_quoted (s : String) : unquote? (quoted s) = some s := by
  rw [unquote?, quoted, String.toList_ofList]
  simp only [unquoteFrom_flatMap, Option.map_some, String.ofList_toList]

end Interpose.Text
