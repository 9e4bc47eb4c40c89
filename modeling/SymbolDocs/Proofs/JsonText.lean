import SymbolDocs.Json.Reader
import SymbolDocs.Json.Writer
import SymbolDocs.Proofs.Anchors
import SymbolDocs.Proofs.Mappings

/-!
# Canonical text is read back

A value of the sorts that a document in text form can hold is the only one written as its canonical text:
the reader gives it back, whatever follows the text in a list or a mapping.

* `readText_charText` reads one character back, by number or not;
* `readWord_intText` reads an integer back;
* `readValue_write`, with `readItems_write` and `readFields_write`, goes through the parts of a value;
* `read?_write` is the result.
-/

namespace SymbolDocs

namespace Text

theorem hexValue?_hexDigit {d : Nat} (h : d < 16) : hexValue? (hexDigit d) = some d := by
  interval_cases d <;> rfl

theorem isAsciiDigit_of_isDigit {c : Char} (h : c.isDigit = true) : isAsciiDigit c = true := by
  simpa [isAsciiDigit, Char.isDigit, Char.le_def] using h

theorem natOfDigits_toDigits (n : Nat) : natOfDigits (Nat.toDigits 10 n) = n := by
  have hfold := Nat.ofDigitChars_ten_toDigits (n := n)
  rwa [Nat.ofDigitChars_eq_foldl] at hfold

theorem ne_of_isDigit {c d : Char} (hc : c.isDigit = true) (hd : d.isDigit = false) : c ≠ d := by
  rintro rfl
  rw [hc] at hd
  cases hd

/-- Only zero is written with a zero in front. -/
theorem eq_zero_of_head?_toDigits {n : Nat} (h : (Nat.toDigits 10 n).head? = some '0') : n = 0 := by
  induction n using Nat.strong_induction_on with
  | h n ih =>
    rw [Nat.toDigits_eq_if (by decide)] at h
    split at h
    · rename_i hn
      interval_cases n <;> first | rfl | exact absurd h (by decide)
    · rename_i hn
      rw [List.head?_append_of_ne_nil _ Nat.toDigits_ne_nil] at h
      have := ih (n / 10) (by omega) h
      omega

theorem toDigits_front (n : Nat) : ∃ c cs, Nat.toDigits 10 n = c :: cs ∧ c.isDigit = true := by
  obtain ⟨c, cs, hcs⟩ := List.exists_cons_of_ne_nil (Nat.toDigits_ne_nil (n := n) (b := 10))
  have hmem : c ∈ Nat.toDigits 10 n := by simp [hcs]
  exact ⟨c, cs, hcs, Nat.isDigit_of_mem_toDigits (by decide) (by decide) hmem⟩

theorem toList_intText_ofNat (n : Nat) : (intText (.ofNat n)).toList = Nat.toDigits 10 n := by
  simp [intText, natText]

theorem toList_intText_negSucc (n : Nat) :
    (intText (.negSucc n)).toList = '-' :: Nat.toDigits 10 (n + 1) := by
  simp [intText, natText]

end Text

namespace Json

/-! ## Characters -/

theorem hex4?_hexDigits {n : Nat} (h : n < 0x10000) :
    ∃ a b c d, Text.hexDigits 4 n = [a, b, c, d] ∧ hex4? a b c d = some n := by
  refine ⟨_, _, _, _, rfl, ?_⟩
  simp only [hex4?, Text.hexValue?_hexDigit (Nat.mod_lt _ (by decide : 0 < 16)), bind, Option.bind,
    pure]
  congr 1
  omega

section ReadText

variable (acc rest : List Char)

theorem readText_unit {n : Nat} (hn : n < 0x10000) (hhigh : isHighHalf n = false)
    (hlow : isLowHalf n = false) :
    readText acc none (unitText n ++ rest) = readText (Char.ofNat n :: acc) none rest := by
  obtain ⟨a, b, c, d, hdigits, hvalue⟩ := hex4?_hexDigits hn
  simp only [unitText, hdigits, List.cons_append, List.nil_append]
  rw [readText]
  simp [hvalue, hhigh, hlow]

/-- The first half of a pair is kept for the second. -/
theorem readText_high {n : Nat} (hhigh : isHighHalf n = true) :
    readText acc none (unitText n ++ rest) = readText acc (some n) rest := by
  have hn : n < 0x10000 := by
    simp only [isHighHalf, Bool.and_eq_true, decide_eq_true_eq] at hhigh
    omega
  obtain ⟨a, b, c, d, hdigits, hvalue⟩ := hex4?_hexDigits hn
  simp only [unitText, hdigits, List.cons_append, List.nil_append]
  rw [readText]
  simp [hvalue, hhigh]

theorem readText_low {h n : Nat} (hlow : isLowHalf n = true) :
    readText acc (some h) (unitText n ++ rest) =
      readText (Char.ofNat (0x10000 + (h - 0xD800) * 0x400 + (n - 0xDC00)) :: acc) none rest := by
  have hn : 0xDC00 ≤ n ∧ n ≤ 0xDFFF := by
    simpa [isLowHalf] using hlow
  have hhigh : isHighHalf n = false := by
    simp only [isHighHalf, Bool.and_eq_false_iff, decide_eq_false_iff_not]
    omega
  obtain ⟨a, b, c, d, hdigits, hvalue⟩ := hex4?_hexDigits (n := n) (by omega)
  simp only [unitText, hdigits, List.cons_append, List.nil_append]
  rw [readText]
  simp [hvalue, hhigh, hlow]

theorem readText_ownUnit {c : Char} (hc : c.toNat < 0x10000) :
    readText acc none (unitText c.toNat ++ rest) = readText (c :: acc) none rest := by
  have hvalid : c.toNat < 0xD800 ∨ 0xDFFF < c.toNat ∧ c.toNat < 0x110000 := c.valid
  rw [readText_unit acc rest hc, Char.ofNat_toNat]
  · simp only [isHighHalf, Bool.and_eq_false_iff, decide_eq_false_iff_not]
    omega
  · simp only [isLowHalf, Bool.and_eq_false_iff, decide_eq_false_iff_not]
    omega

theorem readText_pair {c : Char} (hc : ¬ c.toNat < 0x10000) :
    readText acc none (unitText (0xD800 + (c.toNat - 0x10000) / 0x400) ++
        unitText (0xDC00 + (c.toNat - 0x10000) % 0x400) ++ rest) =
      readText (c :: acc) none rest := by
  have hvalid : c.toNat < 0xD800 ∨ 0xDFFF < c.toNat ∧ c.toNat < 0x110000 := c.valid
  have hback : 0x10000 + (0xD800 + (c.toNat - 0x10000) / 0x400 - 0xD800) * 0x400 +
      (0xDC00 + (c.toNat - 0x10000) % 0x400 - 0xDC00) = c.toNat := by omega
  rw [List.append_assoc, readText_high, readText_low, hback, Char.ofNat_toNat]
  · simp only [isLowHalf, Bool.and_eq_true, decide_eq_true_eq]
    omega
  · simp only [isHighHalf, Bool.and_eq_true, decide_eq_true_eq]
    omega

/-- A written character is read back, whatever follows it. -/
theorem readText_charText (c : Char) :
    readText acc none (charText true c ++ rest) = readText (c :: acc) none rest := by
  have hite : ∀ (p : Prop) [Decidable p] (a b : List Char),
      (p → readText acc none (a ++ rest) = readText (c :: acc) none rest) →
      (¬ p → readText acc none (b ++ rest) = readText (c :: acc) none rest) →
      readText acc none ((if p then a else b) ++ rest) = readText (c :: acc) none rest := by
    intro p _ a b ha hb
    by_cases hp : p
    · rw [if_pos hp, ha hp]
    · rw [if_neg hp, hb hp]
  rw [charText]
  -- the characters with a letter of their own
  iterate 7
    refine hite _ _ _ (fun h => ?_) fun _ => ?_
    · subst h
      exact readText_letter acc rest rfl
  refine hite _ _ _ (fun hcontrol => readText_ownUnit acc rest (by omega)) fun hcontrol => ?_
  refine hite _ _ _ (fun _ => ?_) fun _ => readText_plain acc rest ‹_› ‹_› hcontrol
  exact hite _ _ _ (fun hsmall => readText_ownUnit acc rest hsmall) fun hlarge =>
    readText_pair acc rest hlarge

theorem readText_flatMap (s : List Char) :
    readText acc none (s.flatMap (charText true) ++ '"' :: rest) =
      some (String.ofList (acc.reverse ++ s), rest) := by
  induction s generalizing acc with
  | nil =>
    rw [List.flatMap_nil, List.nil_append, readText] <;> simp
  | cons c s ih =>
    rw [List.flatMap_cons, List.append_assoc, readText_charText, ih]
    simp

end ReadText

/-! ## Numbers -/

/-- What may follow a value: nothing, the next item, or the end of a list or mapping. -/
def Closes (rest : List Char) : Prop :=
  ∀ c, rest.head? = some c → c = ',' ∨ c = ']' ∨ c = '\x7d'

theorem fraction_closes {rest : List Char} (h : Closes rest) : fraction rest = ([], rest) := by
  cases rest with
  | nil => rfl
  | cons c rest => rcases h c rfl with rfl | rfl | rfl <;> rfl

theorem exponent_closes {rest : List Char} (h : Closes rest) : exponent rest = (none, rest) := by
  cases rest with
  | nil => rfl
  | cons c rest => rcases h c rfl with rfl | rfl | rfl <;> rfl

theorem readNumber_toDigits (negative : Bool) (n : Nat) {rest : List Char} (h : Closes rest) :
    readNumber negative (Nat.toDigits 10 n ++ rest) =
      some (.int (if negative then -(n : Int) else n), rest) := by
  have hdigit : ∀ c ∈ Nat.toDigits 10 n, Text.isAsciiDigit c = true := fun c hc =>
    Text.isAsciiDigit_of_isDigit (Nat.isDigit_of_mem_toDigits (by decide) (by decide) hc)
  have hrun : (Nat.toDigits 10 n ++ rest).takeWhile Text.isAsciiDigit = Nat.toDigits 10 n := by
    have hstop : rest.takeWhile Text.isAsciiDigit = [] := by
      cases rest with
      | nil => rfl
      | cons c rest => rcases h c rfl with rfl | rfl | rfl <;> rfl
    rw [List.takeWhile_append_of_pos hdigit, hstop, List.append_nil]
  have hwhole : (if (Nat.toDigits 10 n).head? = some '0' then ['0'] else Nat.toDigits 10 n) =
      Nat.toDigits 10 n := by
    split
    · rename_i hzero
      rw [Text.eq_zero_of_head?_toDigits hzero]
      rfl
    · rfl
  have hne : (Nat.toDigits 10 n).isEmpty = false := by
    simp
  simp only [readNumber, hrun, hwhole, hne, List.drop_left, fraction_closes h, exponent_closes h,
    Text.natOfDigits_toDigits]
  rfl

theorem readWord_digit {c : Char} (h : c.isDigit = true) (cs : List Char) :
    readWord (c :: cs) = readNumber false (c :: cs) := by
  rw [readWord]
  all_goals
    intro _ heq
    exact Text.ne_of_isDigit h (by decide) (List.cons.inj heq).1

theorem readWord_sign {c : Char} (h : c.isDigit = true) (cs : List Char) :
    readWord ('-' :: c :: cs) = readNumber true (c :: cs) := by
  rw [readWord]
  intro _ heq
  rw [(List.cons.inj heq).1] at h
  cases h

theorem readWord_intText (i : Int) {rest : List Char} (h : Closes rest) :
    readWord ((Text.intText i).toList ++ rest) = some (.int i, rest) := by
  cases i with
  | ofNat n =>
    obtain ⟨c, cs, hcs, hdigit⟩ := Text.toDigits_front n
    rw [Text.toList_intText_ofNat, hcs, List.cons_append, readWord_digit hdigit, ← List.cons_append,
      ← hcs, readNumber_toDigits false n h]
    rfl
  | negSucc n =>
    obtain ⟨c, cs, hcs, hdigit⟩ := Text.toDigits_front (n + 1)
    rw [Text.toList_intText_negSucc, hcs, List.cons_append, List.cons_append, readWord_sign hdigit,
      ← List.cons_append, ← hcs, readNumber_toDigits true (n + 1) h]
    rfl

end Json

/-! ## Simple values -/

/-- Is the scalar nothing, a truth value, an integer or text? -/
def Scalar.isSimple : Scalar → Bool
  | .null | .bool _ | .int _ | .text _ => true
  | .real _ | .date _ _ _ => false

/-- Is the key text? -/
def Scalar.isText : Scalar → Bool
  | .text _ => true
  | _ => false

theorem Scalar.exists_text {k : Scalar} (h : k.isText = true) : ∃ s, k = .text s := by
  cases k with
  | text s => exact ⟨s, rfl⟩
  | _ => cases h

namespace Value

mutual

/-- Is the value made of simple scalars, lists and mappings with text keys? -/
def isSimple : Value → Bool
  | .scalar s => s.isSimple
  | .list items => simpleItems items
  | .map fields => simpleFields fields

/-- The same for items. -/
def simpleItems : List Value → Bool
  | [] => true
  | v :: rest => isSimple v && simpleItems rest

/-- The same for fields. -/
def simpleFields : List (Scalar × Value) → Bool
  | [] => true
  | (k, v) :: rest => k.isText && isSimple v && simpleFields rest

end

end Value

namespace Json

/-- Items as they stand in a list. -/
def itemsText (items : List Value) : List Char :=
  (Text.joinWith ", " (writeItems .canonical items)).toList

/-- Fields as they stand in a mapping. -/
def fieldsText (fields : Fields) : List Char :=
  (Text.joinWith ", " (writeFields .canonical fields)).toList

theorem write_list (items : List Value) :
    (write .canonical (.list items)).toList = '[' :: (itemsText items ++ [']']) := by
  simp [write, itemsText, Style.canonical]

theorem write_map (fields : Fields) :
    (write .canonical (.map fields)).toList = '\x7b' :: (fieldsText fields ++ ['\x7d']) := by
  simp [write, fieldsText, Style.canonical]

theorem itemsText_singleton (v : Value) : itemsText [v] = (write .canonical v).toList := rfl

theorem itemsText_cons (v w : Value) (rest : List Value) :
    itemsText (v :: w :: rest) =
      (write .canonical v).toList ++ ',' :: ' ' :: itemsText (w :: rest) := by
  simp [itemsText, writeItems, Text.joinWith]

theorem fieldsText_singleton (key : String) (v : Value) :
    fieldsText [(.text key, v)] =
      '"' :: (key.toList.flatMap (charText true) ++
        '"' :: ':' :: ' ' :: (write .canonical v).toList) := by
  simp [fieldsText, writeFields, Text.joinWith, keyLiteral, textLiteral, Style.canonical]

theorem fieldsText_cons (f g : Scalar × Value) (rest : Fields) :
    fieldsText (f :: g :: rest) = fieldsText [f] ++ ',' :: ' ' :: fieldsText (g :: rest) := by
  simp [fieldsText, writeFields, Text.joinWith]

theorem write_text (s : String) :
    (write .canonical (.text s)).toList = '"' :: (s.toList.flatMap (charText true) ++ ['"']) := by
  simp [write, scalarLiteral, textLiteral, Style.canonical]

theorem write_int (i : Int) : write .canonical (.int i) = Text.intText i := by
  simp [write, scalarLiteral]

/-! ## The first character -/

/-- The text opens with a character that is neither a blank nor the end of a list. -/
def Opens (cs : List Char) : Prop :=
  ∃ c rest, cs = c :: rest ∧ isSpace c = false ∧ c ≠ ']'

theorem Opens.append {cs : List Char} (h : Opens cs) (rest : List Char) : Opens (cs ++ rest) := by
  obtain ⟨c, tail, rfl, hspace, hend⟩ := h
  exact ⟨c, tail ++ rest, rfl, hspace, hend⟩

theorem Opens.skipSpace {cs : List Char} (h : Opens cs) : skipSpace cs = cs := by
  obtain ⟨c, tail, rfl, hspace, -⟩ := h
  rw [Json.skipSpace, List.dropWhile_cons_of_neg (by simp [hspace])]

theorem opens_intText (i : Int) : Opens (Text.intText i).toList := by
  cases i with
  | ofNat n =>
    obtain ⟨c, cs, hcs, hdigit⟩ := Text.toDigits_front n
    have hother : ∀ d : Char, d.isDigit = false → c ≠ d := fun _ => Text.ne_of_isDigit hdigit
    refine ⟨c, cs, by rw [Text.toList_intText_ofNat, hcs], ?_, hother _ (by decide)⟩
    simp only [isSpace, Bool.or_eq_false_iff, beq_eq_false_iff_ne]
    refine ⟨⟨⟨?_, ?_⟩, ?_⟩, ?_⟩ <;> exact hother _ (by decide)
  | negSucc n => exact ⟨'-', _, Text.toList_intText_negSucc n, by decide, by decide⟩

theorem opens_write {v : Value} (h : v.isSimple = true) : Opens (write .canonical v).toList := by
  cases v with
  | list items => exact ⟨_, _, write_list items, by decide, by decide⟩
  | map fields => exact ⟨_, _, write_map fields, by decide, by decide⟩
  | scalar s =>
    cases s with
    | null => exact ⟨'n', _, rfl, by decide, by decide⟩
    | bool b => cases b <;> exact ⟨_, _, rfl, by decide, by decide⟩
    | int i =>
      rw [write_int]
      exact opens_intText i
    | text t => exact ⟨_, _, write_text t, by decide, by decide⟩
    | real d => cases h
    | date _ _ _ => cases h

theorem opens_itemsText {v : Value} (h : v.isSimple = true) (rest : List Value) :
    Opens (itemsText (v :: rest)) := by
  cases rest with
  | nil => exact opens_write h
  | cons w rest =>
    rw [itemsText_cons]
    exact (opens_write h).append _

theorem fieldsText_front {k : Scalar} (h : k.isText = true) (v : Value) (rest : Fields) :
    ∃ cs, fieldsText ((k, v) :: rest) = '"' :: cs := by
  obtain ⟨key, rfl⟩ := Scalar.exists_text h
  cases rest with
  | nil => exact ⟨_, fieldsText_singleton key v⟩
  | cons f rest => exact ⟨_, by rw [fieldsText_cons, fieldsText_singleton, List.cons_append]⟩

/-- The text of a field is longer than that of its value. -/
theorem length_write_lt {k : Scalar} (h : k.isText = true) (v : Value) :
    (write .canonical v).toList.length < (fieldsText [(k, v)]).length := by
  obtain ⟨key, rfl⟩ := Scalar.exists_text h
  rw [fieldsText_singleton, List.length_cons, List.length_append]
  simp only [List.length_cons]
  omega

theorem opens_fieldsText {k : Scalar} (h : k.isText = true) (v : Value) (rest : Fields) :
    Opens (fieldsText ((k, v) :: rest)) := by
  obtain ⟨cs, hcs⟩ := fieldsText_front h v rest
  exact ⟨'"', cs, hcs, by decide, by decide⟩

/-! ## Reading back -/

theorem readValue_word (fuel : Nat) {c : Char} {cs : List Char} (hquote : c ≠ '"') (hlist : c ≠ '[')
    (hmap : c ≠ '\x7b') : readValue (fuel + 1) (c :: cs) = readWord (c :: cs) := by
  rw [readValue] <;>
    · intro _ heq
      cases heq
      contradiction

theorem readValue_text (fuel : Nat) (s : String) (rest : List Char) :
    readValue (fuel + 1) ((write .canonical (.text s)).toList ++ rest) = some (.text s, rest) := by
  have hread := readText_flatMap [] rest s.toList
  rw [write_text, List.cons_append, List.append_assoc, readValue, List.singleton_append, hread]
  simp

theorem readValue_scalar {s : Scalar} (hs : s.isSimple = true) (fuel : Nat) {rest : List Char}
    (hrest : Closes rest) :
    readValue (fuel + 1) ((write .canonical (.scalar s)).toList ++ rest) = some (.scalar s, rest) := by
  cases s with
  | null => rfl
  | bool b => cases b <;> rfl
  | int i =>
    have hword := readWord_intText i hrest
    rw [write_int]
    cases i with
    | ofNat n =>
      obtain ⟨c, cs, hcs, hdigit⟩ := Text.toDigits_front n
      rw [Text.toList_intText_ofNat, hcs, List.cons_append] at hword ⊢
      rw [readValue_word fuel, hword] <;> exact Text.ne_of_isDigit hdigit (by decide)
    | negSucc n =>
      rw [Text.toList_intText_negSucc, List.cons_append] at hword ⊢
      rw [readValue_word fuel (by decide) (by decide) (by decide), hword]
  | text t => exact readValue_text fuel t rest
  | real d => cases hs
  | date _ _ _ => cases hs

theorem readValue_list (fuel : Nat) {cs : List Char} (h : Opens cs) :
    readValue (fuel + 1) ('[' :: cs) = (readItems fuel cs).map fun (xs, rest) => (.list xs, rest) := by
  obtain ⟨c, rest, rfl, -, hend⟩ := id h
  rw [readValue, h.skipSpace]
  split
  · rename_i heq
    exact absurd (List.cons.inj heq).1 hend
  · rfl

theorem readValue_map (fuel : Nat) (cs : List Char) :
    readValue (fuel + 1) ('\x7b' :: '"' :: cs) =
      (readFields fuel ('"' :: cs)).map fun (fs, rest) => (.map (Fields.ofPairs fs), rest) := by
  rw [readValue]
  rfl

theorem readItems_last {fuel : Nat} {cs tail : List Char} {v : Value}
    (hv : readValue fuel cs = some (v, ']' :: tail)) :
    readItems (fuel + 1) cs = some ([v], tail) := by
  rw [readItems, hv]
  rfl

/-- No blank is skipped between items but the one after the comma. -/
theorem readItems_next {fuel : Nat} {cs rest tail : List Char} {v : Value} {items : List Value}
    (hv : readValue fuel cs = some (v, ',' :: ' ' :: rest)) (hopens : Opens rest)
    (hitems : readItems fuel rest = some (items, tail)) :
    readItems (fuel + 1) cs = some (v :: items, tail) := by
  have hskip : skipSpace (' ' :: rest) = rest := hopens.skipSpace
  rw [readItems, hv]
  change (readItems fuel (skipSpace (' ' :: rest))).map _ = _
  rw [hskip, hitems]
  rfl

/-- A key is read, and then its value; after it comes the end of the mapping or the next field. -/
theorem readFields_key (fuel : Nat) (key : String) {cs rest : List Char} {v : Value} (hopens : Opens cs)
    (hv : readValue fuel cs = some (v, rest)) :
    (∀ tail, rest = '\x7d' :: tail →
      readFields (fuel + 1) ('"' :: (key.toList.flatMap (charText true) ++ '"' :: ':' :: ' ' :: cs)) =
        some ([(.text key, v)], tail)) ∧
    ∀ next fields tail, rest = ',' :: ' ' :: next → Opens next →
      readFields fuel next = some (fields, tail) →
      readFields (fuel + 1) ('"' :: (key.toList.flatMap (charText true) ++ '"' :: ':' :: ' ' :: cs)) =
        some ((.text key, v) :: fields, tail) := by
  have hkey := readText_flatMap [] (':' :: ' ' :: cs) key.toList
  have hcolon : skipSpace (':' :: ' ' :: cs) = ':' :: ' ' :: cs := rfl
  have hblank : skipSpace (' ' :: cs) = cs := hopens.skipSpace
  constructor
  · rintro tail rfl
    have hbrace : skipSpace ('\x7d' :: tail) = '\x7d' :: tail := rfl
    rw [readFields, hkey]
    simp [hcolon, hblank, hv, hbrace]
  · rintro next fields tail rfl hnext hfields
    have hcomma : skipSpace (',' :: ' ' :: next) = ',' :: ' ' :: next := rfl
    have hskip : skipSpace (' ' :: next) = next := hnext.skipSpace
    rw [readFields, hkey]
    simp [hcolon, hblank, hv, hcomma, hskip, hfields]

theorem readFields_last {fuel : Nat} {k : Scalar} {v : Value} {tail : List Char}
    (hk : k.isText = true) (hs : v.isSimple = true)
    (hv : readValue fuel ((write .canonical v).toList ++ '\x7d' :: tail) = some (v, '\x7d' :: tail)) :
    readFields (fuel + 1) (fieldsText [(k, v)] ++ '\x7d' :: tail) = some ([(k, v)], tail) := by
  obtain ⟨key, rfl⟩ := Scalar.exists_text hk
  have hfield := (readFields_key fuel key ((opens_write hs).append _) hv).1 tail rfl
  simpa [fieldsText_singleton] using hfield

theorem readFields_next {fuel : Nat} {k : Scalar} {v : Value} {rest tail : List Char} {fields : Fields}
    (hk : k.isText = true) (hs : v.isSimple = true)
    (hv : readValue fuel ((write .canonical v).toList ++ ',' :: ' ' :: rest) =
      some (v, ',' :: ' ' :: rest))
    (hopens : Opens rest) (hfields : readFields fuel rest = some (fields, tail)) :
    readFields (fuel + 1) (fieldsText [(k, v)] ++ ',' :: ' ' :: rest) =
      some ((k, v) :: fields, tail) := by
  obtain ⟨key, rfl⟩ := Scalar.exists_text hk
  have hfield := (readFields_key fuel key ((opens_write hs).append _) hv).2
  simpa [fieldsText_singleton] using hfield rest fields tail rfl hopens hfields

mutual

/-- A simple value is read back from its text, whatever follows. -/
theorem readValue_write : (v : Value) → v.isSimple = true → v.isProper = true → (fuel : Nat) →
    (write .canonical v).toList.length ≤ fuel → (rest : List Char) → Closes rest →
    readValue fuel ((write .canonical v).toList ++ rest) = some (v, rest)
  | v, hs, _, 0, hfuel, _, _ => by
    obtain ⟨c, cs, hcs, -⟩ := opens_write hs
    simp [hcs] at hfuel
  | .scalar s, hs, _, fuel + 1, _, _, hrest => readValue_scalar hs fuel hrest
  | .list [], _, _, _ + 1, _, _, _ => rfl
  | .list (v :: items), hs, hp, fuel + 1, hfuel, rest, _ => by
    rw [write_list, List.length_cons, List.length_append, List.length_singleton] at hfuel
    have hitems := readItems_write (v :: items) (by simp) hs hp fuel (by omega) rest
    simp only [Value.isSimple, Value.simpleItems, Bool.and_eq_true] at hs
    rw [write_list, List.cons_append, List.append_assoc,
      readValue_list fuel ((opens_itemsText hs.1 items).append _), List.singleton_append, hitems]
    rfl
  | .map [], _, _, _ + 1, _, _, _ => rfl
  | .map ((k, v) :: fields), hs, hp, fuel + 1, hfuel, rest, _ => by
    rw [write_map, List.length_cons, List.length_append, List.length_singleton] at hfuel
    have hfields := readFields_write ((k, v) :: fields) (by simp) hs hp fuel (by omega) rest
    simp only [Value.isSimple, Value.simpleFields, Bool.and_eq_true] at hs
    obtain ⟨cs, hcs⟩ := fieldsText_front hs.1.1 v fields
    rw [hcs, List.cons_append] at hfields
    rw [write_map, hcs, List.cons_append, List.append_assoc, List.cons_append, List.singleton_append,
      readValue_map, hfields]
    simp [Fields.ofPairs_eq hp]

theorem readItems_write : (items : List Value) → items ≠ [] → Value.simpleItems items = true →
    Value.properItems items = true → (fuel : Nat) → (itemsText items).length < fuel →
    (rest : List Char) → readItems fuel (itemsText items ++ ']' :: rest) = some (items, rest)
  | [], hne, _, _, _, _, _ => absurd rfl hne
  | [v], _, hs, hp, fuel + 1, hfuel, rest => by
    simp only [Value.simpleItems, Value.properItems, Bool.and_true] at hs hp
    rw [itemsText_singleton] at hfuel ⊢
    exact readItems_last (readValue_write v hs hp fuel (by omega) _ (by simp [Closes]))
  | v :: w :: items, _, hs, hp, fuel + 1, hfuel, rest => by
    rw [Value.simpleItems, Bool.and_eq_true] at hs
    rw [Value.properItems, Bool.and_eq_true] at hp
    rw [itemsText_cons] at hfuel ⊢
    simp only [List.length_append, List.length_cons] at hfuel
    have hitems := readItems_write (w :: items) (by simp) hs.2 hp.2 fuel (by omega) rest
    have hopens : Opens (itemsText (w :: items) ++ ']' :: rest) := by
      rw [Value.simpleItems, Bool.and_eq_true] at hs
      exact (opens_itemsText hs.2.1 items).append _
    have hv := readValue_write v hs.1 hp.1 fuel (by omega)
      (',' :: ' ' :: (itemsText (w :: items) ++ ']' :: rest)) (by simp [Closes])
    rw [List.append_assoc]
    exact readItems_next hv hopens hitems

theorem readFields_write : (fields : List (Scalar × Value)) → fields ≠ [] →
    Value.simpleFields fields = true → Value.properFields fields = true → (fuel : Nat) →
    (fieldsText fields).length < fuel → (rest : List Char) →
    readFields fuel (fieldsText fields ++ '\x7d' :: rest) = some (fields, rest)
  | [], hne, _, _, _, _, _ => absurd rfl hne
  | [(k, v)], _, hs, hp, fuel + 1, hfuel, rest => by
    simp only [Value.simpleFields, Bool.and_eq_true, Bool.and_true] at hs
    obtain ⟨-, hp, -⟩ := Value.properFields_cons hp
    have hlength := length_write_lt hs.1 v
    exact readFields_last hs.1 hs.2
      (readValue_write v hs.2 hp fuel (by omega) _ (by simp [Closes]))
  | (k, v) :: (k', w) :: fields, _, hs, hp, fuel + 1, hfuel, rest => by
    rw [Value.simpleFields, Bool.and_eq_true, Bool.and_eq_true] at hs
    obtain ⟨-, hv, hp⟩ := Value.properFields_cons hp
    have hlength := length_write_lt hs.1.1 v
    rw [fieldsText_cons] at hfuel ⊢
    simp only [List.length_append, List.length_cons] at hfuel
    have hfields := readFields_write ((k', w) :: fields) (by simp) hs.2 hp fuel (by omega) rest
    have hopens : Opens (fieldsText ((k', w) :: fields) ++ '\x7d' :: rest) := by
      rw [Value.simpleFields, Bool.and_eq_true, Bool.and_eq_true] at hs
      exact (opens_fieldsText hs.2.1.1 w fields).append _
    have hvalue := readValue_write v hs.1.2 hv fuel (by omega)
      (',' :: ' ' :: (fieldsText ((k', w) :: fields) ++ '\x7d' :: rest)) (by simp [Closes])
    rw [List.append_assoc]
    exact readFields_next hs.1.1 hs.1.2 hvalue hopens hfields

end

/-- **What is written is read back.** -/
theorem read?_write {v : Value} (hs : v.isSimple = true) (hp : v.isProper = true) :
    read? (write .canonical v) = some v := by
  have hfront := (opens_write hs).skipSpace
  have hread := readValue_write v hs hp ((write .canonical v).toList.length + 1) (by omega) []
    (by intro c hc; cases hc)
  rw [List.append_nil] at hread
  rw [read?, hfront, hread]
  rfl

end Json

end SymbolDocs
