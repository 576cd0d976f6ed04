import Interpose.Proofs.Json.Grammar
import Interpose.Proofs.Json.Numerals

/-!
# The printer and the parser follow the grammar

`Json.parse` reads every text of the grammar as the value that it stands for. What is not part of
the text is left over, as long as no numeral runs into it. `Json.compact` prints no blanks.
-/

namespace Interpose.Json

/-! ### Strings -/

theorem hexValue?_digitChar : ∀ d < 16, hexValue? (Nat.digitChar d) = some d := by decide

theorem hexNumber?_digitChar {a b c d : Nat} (ha : a < 16) (hb : b < 16) (hc : c < 16)
    (hd : d < 16) :
    hexNumber? a.digitChar b.digitChar c.digitChar d.digitChar =
      some (((a * 16 + b) * 16 + c) * 16 + d) := by
  unfold hexNumber?
  rw [hexValue?_digitChar a ha, hexValue?_digitChar b hb, hexValue?_digitChar c hc,
    hexValue?_digitChar d hd]
  rfl

theorem takePieces_plain {c : Char} (hquote : c ≠ '"') (hbackslash : c ≠ '\\')
    (hcontrol : ¬c.toNat < 0x20) (acc : List Piece) (rest : List Char) :
    takePieces acc (c :: rest) = takePieces (.char c :: acc) rest := by
  rw [takePieces.eq_def]
  split
  · rename_i heq
    exact absurd (List.cons.inj heq).1 hquote
  · rename_i heq
    exact absurd (List.cons.inj heq).1 hbackslash
  · rename_i heq
    exact absurd (List.cons.inj heq).1 hbackslash
  · rename_i heq
    obtain ⟨rfl, rfl⟩ := List.cons.inj heq
    rw [if_neg hcontrol]
  · rename_i heq
    cases heq

/-- What is read for a character: itself, or its code. -/
inductive Piece.Means : Piece → Char → Prop
  | char (c : Char) : Means (.char c) c
  | unit (c : Char) : Means (.unit c.toNat) c

theorem takePieces_short {letter c : Char} (h : (letter, c) ∈ shortEscapes) (acc : List Piece)
    (rest : List Char) :
    takePieces acc ('\\' :: letter :: rest) = takePieces (.char c :: acc) rest := by
  have hne : letter ≠ 'u' ∧ shortEscape? letter = some c := by
    have hall : ∀ e ∈ shortEscapes, e.1 ≠ 'u' ∧ shortEscape? e.1 = some e.2 := by decide
    exact hall _ h
  rw [takePieces.eq_def]
  split
  · rename_i heq
    exact absurd (List.cons.inj heq).1 (by decide)
  · rename_i heq
    exact absurd (List.cons.inj (List.cons.inj heq).2).1 hne.1
  · rename_i heq
    obtain ⟨rfl, rfl⟩ := List.cons.inj (List.cons.inj heq).2
    simp only [hne.2]
  · rename_i hmore heq
    obtain ⟨rfl, rfl⟩ := List.cons.inj heq
    exact absurd rfl (hmore letter rest rfl)
  · rename_i heq
    cases heq

theorem Spells.exists_piece {text : List Char} {c : Char} (h : Spells text c) :
    ∃ p, Piece.Means p c ∧
      ∀ acc rest, takePieces acc (text ++ rest) = takePieces (p :: acc) rest := by
  cases h with
  | plain control quote backslash =>
    exact ⟨.char c, .char c, takePieces_plain quote backslash (Nat.not_lt.2 control)⟩
  | short escape => exact ⟨.char c, .char c, takePieces_short escape⟩
  | code hw hx hy hz value =>
    refine ⟨.unit c.toNat, .unit c, fun acc rest => ?_⟩
    simp only [List.cons_append, List.nil_append, takePieces, hexNumber?_digitChar hw hx hy hz,
      value]

theorem joinPieces_unit {n : Nat} (hn : n < 0xd800 ∨ 0xdfff < n) (acc : List Char)
    (pieces : List Piece) :
    joinPieces acc (.unit n :: pieces) = joinPieces (Char.ofNat n :: acc) pieces := by
  have hhigh : (decide (0xd800 ≤ n) && decide (n < 0xdc00)) = false := by simp; omega
  have hlow : (decide (0xdc00 ≤ n) && decide (n < 0xe000)) = false := by simp; omega
  have hboth : (decide (0xd800 ≤ n) && decide (n < 0xe000)) = false := by simp; omega
  cases pieces with
  | nil => simp only [joinPieces, hboth, Bool.false_eq_true, if_false]
  | cons p pieces =>
    cases p with
    | unit low => simp only [joinPieces, hhigh, hlow, Bool.false_eq_true, if_false]
    | char c => simp only [joinPieces, hboth, Bool.false_eq_true, if_false]

theorem joinPieces_means {p : Piece} {c : Char} (h : p.Means c) (acc : List Char)
    (pieces : List Piece) : joinPieces acc (p :: pieces) = joinPieces (c :: acc) pieces := by
  cases h with
  | char => rw [joinPieces]
  | unit =>
    have hvalid : c.toNat < 0xd800 ∨ 0xdfff < c.toNat := c.valid.imp_right And.left
    rw [joinPieces_unit hvalid, Char.ofNat_toNat]

theorem exists_pieces {parts : List (Spelled Char)} (h : ∀ p ∈ parts, Spells p.text p.meaning) :
    ∃ pieces, (∀ acc rest, takePieces acc (parts.flatMap Spelled.text ++ '"' :: rest) =
        some (acc.reverse ++ pieces, rest)) ∧
      ∀ acc, joinPieces acc pieces = some (acc.reverse ++ parts.map Spelled.meaning) := by
  induction parts with
  | nil =>
    refine ⟨[], fun acc rest => ?_, fun acc => ?_⟩
    · rw [List.flatMap_nil, List.nil_append, List.append_nil, takePieces]
    · rw [List.map_nil, joinPieces, List.append_nil]
  | cons part parts ih =>
    obtain ⟨hpart, hparts⟩ := List.forall_mem_cons.1 h
    obtain ⟨p, hmeans, htake⟩ := hpart.exists_piece
    obtain ⟨pieces, htakes, hjoins⟩ := ih hparts
    refine ⟨p :: pieces, fun acc rest => ?_, fun acc => ?_⟩
    · rw [List.flatMap_cons, List.append_assoc, htake, htakes, List.reverse_cons,
        List.append_assoc]
      rfl
    · rw [joinPieces_means hmeans, hjoins, List.map_cons, List.reverse_cons, List.append_assoc]
      rfl

/-- A string is read from behind its opening quote. -/
theorem Quotes.exists_parseString {text : List Char} {s : String} (h : Quotes text s) :
    ∃ t, text = '"' :: t ∧ ∀ rest, parseString (t ++ rest) = some (some s, rest) := by
  cases h with
  | mk each =>
    obtain ⟨pieces, htakes, hjoins⟩ := exists_pieces each
    refine ⟨_, rfl, fun rest => ?_⟩
    unfold parseString
    rw [List.append_assoc, List.cons_append, List.nil_append, htakes]
    simp only [Option.bind_eq_bind, Option.bind_some, hjoins, Option.map_some, List.reverse_nil,
      List.nil_append]
    rfl

/-! ### Values -/

/-- A value is read from a text, whatever follows. -/
def Reads (text : List Char) (v : Json) : Prop :=
  ∀ fuel rest, text.length < fuel → Ends rest →
    parseValue fuel (text ++ rest) = some (v, rest)

theorem reads_of_succ {text : List Char} {v : Json}
    (h : ∀ fuel rest, text.length ≤ fuel → Ends rest →
      parseValue (fuel + 1) (text ++ rest) = some (v, rest)) : Reads text v := by
  intro fuel rest hfuel hrest
  cases fuel with
  | zero => exact absurd hfuel (Nat.not_lt_zero _)
  | succ fuel => exact h fuel rest (Nat.le_of_lt_succ hfuel) hrest

theorem skipBlanks_cons {c : Char} (hc : isBlank c = false) (s : List Char) :
    skipBlanks (c :: s) = c :: s := by
  rw [skipBlanks, hc]
  rfl

theorem ends_cons {c : Char} (hc : c = ',' ∨ c = ']' ∨ c = '\x7d') (s : List Char) :
    Ends (c :: s) := by
  intro d hd
  cases hd
  rcases hc with rfl | rfl | rfl <;> decide

theorem ne_of_number {c d : Char} (hc : c = '-' ∨ c.isDigit = true) (hd : d.isDigit = false)
    (hminus : d ≠ '-') : c ≠ d := by
  rintro rfl
  rcases hc with rfl | hdigit
  · exact hminus rfl
  · exact absurd (hd.symm.trans hdigit) (by decide)

theorem isBlank_of_number {c : Char} (hc : c = '-' ∨ c.isDigit = true) : isBlank c = false := by
  have hspace : c ≠ ' ' := ne_of_number hc rfl (by decide)
  have hline : c ≠ '\n' := ne_of_number hc rfl (by decide)
  have htab : c ≠ '\t' := ne_of_number hc rfl (by decide)
  have hreturn : c ≠ '\r' := ne_of_number hc rfl (by decide)
  simp only [isBlank, hspace, hline, htab, hreturn, decide_false, Bool.or_self]

theorem parseValue_number {c : Char} (hc : c = '-' ∨ c.isDigit = true) (fuel : Nat)
    (s : List Char) : parseValue (fuel + 1) (c :: s) =
      match parseNumeral (c :: s) with
      | some (n, rest) => some (.number n, rest)
      | none => none := by
  rw [parseValue, skipBlanks_cons (isBlank_of_number hc)]
  split
  case h_7 => rfl
  all_goals
    rename_i heq
    exact absurd (List.cons.inj heq).1 (ne_of_number hc rfl (by decide))

theorem reads_int (n : Int) : Reads (toString n).toList (.int n) := by
  refine reads_of_succ fun fuel rest _ hrest => ?_
  obtain ⟨c, s, htext, hc⟩ := exists_toList_toString n
  have hread := parseNumeral_append n hrest
  rw [htext, List.cons_append] at hread ⊢
  rw [parseValue_number hc, hread]
  rfl

theorem Quotes.reads {text : List Char} {s : String} (h : Quotes text s) :
    Reads text (.str s) := by
  refine reads_of_succ fun fuel rest _ _ => ?_
  obtain ⟨t, rfl, hparse⟩ := h.exists_parseString
  rw [List.cons_append, parseValue, skipBlanks_cons (c := '"') rfl]
  simp only [hparse]

theorem Denotes.exists_cons {depth : Nat} {text : List Char} {v : Json}
    (h : Denotes depth text v) : ∃ c s, text = c :: s ∧ isBlank c = false ∧ c ≠ ']' := by
  cases h with
  | null => exact ⟨'n', _, rfl, rfl, by decide⟩
  | bool b =>
    cases b with
    | true => exact ⟨'t', _, rfl, rfl, by decide⟩
    | false => exact ⟨'f', _, rfl, rfl, by decide⟩
  | @int _ n =>
    obtain ⟨c, s, htext, hc⟩ := exists_toList_toString n
    exact ⟨c, s, htext, isBlank_of_number hc, ne_of_number hc rfl (by decide)⟩
  | str quotes =>
    obtain ⟨t, rfl, _⟩ := quotes.exists_parseString
    exact ⟨'"', t, rfl, rfl, by decide⟩
  | array each => exact ⟨'[', _, rfl, rfl, by decide⟩
  | object keys values => exact ⟨'\x7b', _, rfl, rfl, by decide⟩

/-! ### Arrays -/

theorem commas_singleton (text : List Char) : commas [text] = text := by
  simp [commas]

theorem commas_cons_cons (text next : List Char) (texts : List (List Char)) :
    commas (text :: next :: texts) = text ++ ',' :: commas (next :: texts) := by
  simp [commas]

theorem exists_commas (c : Char) (text : List Char) (texts : List (List Char)) :
    ∃ s, commas ((c :: text) :: texts) = c :: s := by
  cases texts with
  | nil => exact ⟨text, commas_singleton (c :: text)⟩
  | cons next texts => exact ⟨_, commas_cons_cons (c :: text) next texts⟩

theorem parseItems_append {i : Spelled Json} {items : List (Spelled Json)}
    (h : ∀ j ∈ i :: items, Reads j.text j.meaning) (fuel : Nat) (done : List Json)
    (rest : List Char) (hfuel : (commas ((i :: items).map Spelled.text)).length + 2 ≤ fuel) :
    parseItems fuel done (commas ((i :: items).map Spelled.text) ++ ']' :: rest) =
      some (.array (done.reverse ++ (i :: items).map Spelled.meaning), rest) := by
  -- each element takes one piece of fuel, and its comma makes up for it
  induction items generalizing i fuel done with
  | nil =>
    obtain ⟨fuel, rfl⟩ := Nat.exists_eq_succ_of_ne_zero (show fuel ≠ 0 by omega)
    have hi := h i List.mem_cons_self
    simp only [List.map_cons, List.map_nil, commas_singleton] at hfuel ⊢
    rw [parseItems, hi fuel (']' :: rest) (by omega) (ends_cons (by simp) rest)]
    simp only [skipBlanks_cons (c := ']') rfl, List.reverse_cons]
  | cons j items ih =>
    obtain ⟨fuel, rfl⟩ := Nat.exists_eq_succ_of_ne_zero (show fuel ≠ 0 by omega)
    obtain ⟨hi, hitems⟩ := List.forall_mem_cons.1 h
    simp only [List.map_cons, commas_cons_cons, List.length_append, List.length_cons] at hfuel
    have hmore := ih hitems fuel (i.meaning :: done) (by rw [List.map_cons]; omega)
    simp only [List.map_cons, commas_cons_cons, List.append_assoc, List.cons_append] at hmore ⊢
    rw [parseItems, hi fuel _ (by omega) (ends_cons (by simp) _)]
    simp only [skipBlanks_cons (c := ',') rfl, hmore, List.reverse_cons, List.append_assoc]
    rfl

theorem reads_array {items : List (Spelled Json)}
    (hstart : ∀ i ∈ items, ∃ c s, i.text = c :: s ∧ isBlank c = false ∧ c ≠ ']')
    (h : ∀ i ∈ items, Reads i.text i.meaning) :
    Reads ('[' :: (commas (items.map Spelled.text) ++ [']']))
      (.array (items.map Spelled.meaning)) := by
  refine reads_of_succ fun fuel rest hfuel hrest => ?_
  cases items with
  | nil => rfl
  | cons i items =>
    simp only [List.length_cons, List.length_append, List.length_nil] at hfuel
    have hitems := parseItems_append h fuel [] rest (by omega)
    obtain ⟨c, text, htext, hblank, hclose⟩ := hstart i List.mem_cons_self
    obtain ⟨s, hchars⟩ := exists_commas c text (items.map Spelled.text)
    rw [List.map_cons, htext, hchars] at hitems ⊢
    rw [List.cons_append, List.append_assoc, parseValue, skipBlanks_cons (c := '[') rfl]
    simp only [List.cons_append, List.nil_append, skipBlanks_cons hblank] at hitems ⊢
    -- the array is not empty, since no value starts with the closing bracket
    split
    · rename_i heq
      exact absurd (List.cons.inj heq).1 hclose
    · exact hitems

/-! ### Objects -/

def readable (e : String × Json) : Option String × Json := (some e.1, e.2)

theorem ofEntries_readable (done : List (String × Json)) :
    ofEntries (done.map readable) = .object done.reverse := by
  have hkeyed : (fun e : Option String × Json => e.1.map fun k => (k, e.2)) ∘ readable = some := rfl
  unfold ofEntries
  rw [List.filterMap_map, hkeyed, List.filterMap_some, List.length_map, if_pos rfl]

variable {e : Spelled String × Spelled Json} {entries : List (Spelled String × Spelled Json)}

theorem parseEntries_key (hkey : Quotes e.1.text e.1.meaning) (hvalue : Reads e.2.text e.2.meaning)
    {fuel : Nat} (done : List (String × Json)) {rest : List Char} (hrest : Ends rest)
    (hfuel : e.2.text.length < fuel) :
    parseEntries (fuel + 1) (done.map readable) (entryText e ++ rest) =
      match skipBlanks rest with
      | ',' :: rest => parseEntries fuel ((entryMeaning e :: done).map readable) rest
      | '\x7d' :: rest => some (.object (done.reverse ++ [entryMeaning e]), rest)
      | _ => none := by
  obtain ⟨t, htext, hparse⟩ := hkey.exists_parseString
  have hobject := ofEntries_readable (entryMeaning e :: done)
  rw [List.reverse_cons] at hobject
  rw [entryText, htext, List.append_assoc, List.cons_append, List.cons_append, parseEntries,
    skipBlanks_cons (c := '"') rfl]
  simp only [hparse, skipBlanks_cons (c := ':') rfl, hvalue fuel rest hfuel hrest]
  rw [← hobject]
  rfl

theorem length_entryText (hkey : Quotes e.1.text e.1.meaning) :
    e.2.text.length + 2 ≤ (entryText e).length := by
  obtain ⟨t, htext, _⟩ := hkey.exists_parseString
  rw [entryText, htext, List.length_append, List.length_cons, List.length_cons]
  omega

theorem parseEntries_append
    (h : ∀ f ∈ e :: entries, Quotes f.1.text f.1.meaning ∧ Reads f.2.text f.2.meaning) (fuel : Nat)
    (done : List (String × Json)) (rest : List Char)
    (hfuel : (commas ((e :: entries).map entryText)).length + 2 ≤ fuel) :
    parseEntries fuel (done.map readable)
        (commas ((e :: entries).map entryText) ++ '\x7d' :: rest) =
      some (.object (done.reverse ++ (e :: entries).map entryMeaning), rest) := by
  obtain ⟨hkey, hvalue⟩ := h e List.mem_cons_self
  have hlength := length_entryText hkey
  induction entries generalizing e fuel done with
  | nil =>
    obtain ⟨fuel, rfl⟩ := Nat.exists_eq_succ_of_ne_zero (show fuel ≠ 0 by omega)
    simp only [List.map_cons, List.map_nil, commas_singleton] at hfuel ⊢
    rw [parseEntries_key hkey hvalue done (ends_cons (by simp) rest) (by omega)]
    simp only [skipBlanks_cons (c := '\x7d') rfl]
  | cons f entries ih =>
    obtain ⟨fuel, rfl⟩ := Nat.exists_eq_succ_of_ne_zero (show fuel ≠ 0 by omega)
    have hentries := (List.forall_mem_cons.1 h).2
    obtain ⟨hkey', hvalue'⟩ := hentries f List.mem_cons_self
    simp only [List.map_cons, commas_cons_cons, List.length_append, List.length_cons] at hfuel
    have hmore := ih hentries fuel (entryMeaning e :: done) (by rw [List.map_cons]; omega) hkey'
      hvalue' (length_entryText hkey')
    simp only [List.map_cons, commas_cons_cons, List.append_assoc, List.cons_append] at hmore ⊢
    rw [parseEntries_key hkey hvalue done (ends_cons (by simp) _) (by omega)]
    simp only [skipBlanks_cons (c := ',') rfl, List.map_cons, hmore, List.reverse_cons,
      List.append_assoc]
    rfl

theorem reads_object
    (h : ∀ e ∈ entries, Quotes e.1.text e.1.meaning ∧ Reads e.2.text e.2.meaning) :
    Reads ('\x7b' :: (commas (entries.map entryText) ++ ['\x7d']))
      (.object (entries.map entryMeaning)) := by
  refine reads_of_succ fun fuel rest hfuel hrest => ?_
  cases entries with
  | nil => rfl
  | cons e entries =>
    simp only [List.length_cons, List.length_append, List.length_nil] at hfuel
    have hentries := parseEntries_append h fuel [] rest (by omega)
    obtain ⟨text, htext⟩ : ∃ text, entryText e = '"' :: text := by
      obtain ⟨t, htext, _⟩ := (h e List.mem_cons_self).1.exists_parseString
      exact ⟨t ++ ':' :: e.2.text, by rw [entryText, htext, List.cons_append]⟩
    obtain ⟨s, hchars⟩ := exists_commas '"' text (entries.map entryText)
    rw [List.map_cons, htext, hchars] at hentries ⊢
    rw [List.cons_append, List.append_assoc, parseValue, skipBlanks_cons (c := '\x7b') rfl]
    simp only [List.cons_append, List.nil_append, skipBlanks_cons (c := '"') rfl] at hentries ⊢
    exact hentries

/-! ### Whole texts -/

theorem Denotes.reads {depth : Nat} {text : List Char} {v : Json} (h : Denotes depth text v) :
    Reads text v := by
  induction h with
  | null => exact reads_of_succ fun fuel rest _ _ => rfl
  | bool b =>
    cases b with
    | true => exact reads_of_succ fun fuel rest _ _ => rfl
    | false => exact reads_of_succ fun fuel rest _ _ => rfl
  | int => exact reads_int _
  | str quotes => exact quotes.reads
  | array each ih => exact reads_array (fun i hi => (each i hi).exists_cons) ih
  | object keys _ ih => exact reads_object fun e he => ⟨keys e he, ih e he⟩

theorem parse_of_denotes {depth : Nat} {text : String} {v : Json}
    (h : Denotes depth text.toList v) : parse text = some v := by
  have hread := h.reads (text.toList.length + 1) [] (Nat.lt_succ_self _) fun c hc => (nomatch hc)
  rw [List.append_nil] at hread
  unfold parse
  simp only [hread]
  rfl

/-! ### The compact form -/

mutual

theorem write_eq_append (out : String) : (v : Json) → write out v = out ++ v.compact
  | .null | .unreadable | .bool true | .bool false | .number _ | .str _ => by
    simp [compact, write]
  | .array [] => by simp [compact, write, writeItems, String.append_assoc]
  | .array (v :: items) => by
    have hcompact : compact (.array (v :: items)) = write "" (.array (v :: items)) := rfl
    rw [hcompact]
    simp only [write, writeItems, writeMoreItems_eq_append _ items, write_eq_append _ v,
      String.append_assoc, String.empty_append]
  | .object [] => by simp [compact, write, writeEntries, String.append_assoc]
  | .object ((k, v) :: entries) => by
    have hcompact : compact (.object ((k, v) :: entries)) =
        write "" (.object ((k, v) :: entries)) := rfl
    rw [hcompact]
    simp only [write, writeEntries, writeMoreEntries_eq_append _ entries, write_eq_append _ v,
      String.append_assoc, String.empty_append]

theorem writeMoreItems_eq_append (out : String) : (items : List Json) →
    writeMoreItems out items = out ++ String.join (items.map fun v => "," ++ v.compact)
  | [] => by simp [writeMoreItems]
  | v :: items => by
    simp only [writeMoreItems, writeMoreItems_eq_append _ items, write_eq_append _ v]
    simp [String.append_assoc]

theorem writeMoreEntries_eq_append (out : String) : (entries : List (String × Json)) →
    writeMoreEntries out entries =
      out ++ String.join (entries.map fun e => "," ++ (stringText e.1 ++ ":" ++ e.2.compact))
  | [] => by simp [writeMoreEntries]
  | (k, v) :: entries => by
    simp only [writeMoreEntries, writeMoreEntries_eq_append _ entries, write_eq_append _ v]
    simp [String.append_assoc]

end

theorem intercalate_eq_join (text : String) (texts : List String) :
    ",".intercalate (text :: texts) = text ++ String.join (texts.map fun t => "," ++ t) := by
  induction texts generalizing text with
  | nil => simp
  | cons next texts ih =>
    rw [String.intercalate_cons_cons, ih]
    simp [String.append_assoc]

theorem compact_array (items : List Json) :
    compact (.array items) = "[" ++ ",".intercalate (items.map compact) ++ "]" := by
  cases items with
  | nil => rfl
  | cons v items =>
    have hcompact : compact (.array (v :: items)) = write "" (.array (v :: items)) := rfl
    rw [hcompact, write, writeItems, writeMoreItems_eq_append, write_eq_append, List.map_cons,
      intercalate_eq_join, List.map_map]
    simp only [String.append_assoc, String.empty_append]
    rfl

theorem compact_object (entries : List (String × Json)) :
    compact (.object entries) = "\x7b" ++
      ",".intercalate (entries.map fun e => stringText e.1 ++ ":" ++ e.2.compact) ++ "\x7d" := by
  cases entries with
  | nil => rfl
  | cons e entries =>
    have hcompact : compact (.object (e :: entries)) = write "" (.object (e :: entries)) := rfl
    rw [hcompact, write, writeEntries, writeMoreEntries_eq_append, write_eq_append, List.map_cons,
      intercalate_eq_join, List.map_map]
    simp only [String.append_assoc, String.empty_append]
    rfl

theorem compact_compact : Compact compact where
  null := rfl
  bool b := by cases b <;> rfl
  int n := by
    rw [← text_ofInt]
    simp [compact, write, int]
  str s := by simp [compact, write]
  array := compact_array
  object := compact_object

end Interpose.Json
