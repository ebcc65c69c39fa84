import ContractCfg.Json.Written

/-!
Reading the indented text back. A document whose numbers are integers that fit a 64-bit word is
read back from its indented text as written: the same document with every string and key
replaced by its escaped body. Each escaped body then decodes to the string it came from.

The reader spends one unit of fuel per nesting level and per item; reading the text of a value
with more fuel than the text has characters never runs out, since each step consumes at least
one character.
-/

namespace ContractCfg.Json

theorem ok_bind {ε α β : Type} (a : α) (f : α → Except ε β) : (Except.ok a >>= f) = f a := rfl

theorem pure_eq_ok {ε α : Type} (a : α) : (pure a : Except ε α) = .ok a := rfl

theorem map_ok {ε α β : Type} (f : α → β) (a : α) : Except.map f (.ok a : Except ε α) = .ok (f a) :=
  rfl

-- Reading a document is a chain of `Except` steps; these unfold the successful ones here only,
-- so that `simp` elsewhere in the library keeps its meaning.
attribute [local simp] ok_bind pure_eq_ok map_ok

theorem hexValue_hexDigit : ∀ n : Nat, n < 16 → hexValue (hexDigit n) = some n
  | 0, _ | 1, _ | 2, _ | 3, _ | 4, _ | 5, _ | 6, _ | 7, _ | 8, _ | 9, _ | 10, _ | 11, _ | 12, _
  | 13, _ | 14, _ | 15, _ => by decide
  | _ + 16, h => absurd h (by omega)

theorem foldl_escape (s : String) (init : String) :
    s.foldl (fun acc c => acc ++ escapeChar c) init = init ++ escaped s := by
  simp only [escaped, String.foldl_eq_foldl_toList]
  generalize s.toList = cs
  induction cs generalizing init with
  | nil => simp
  | cons c cs ih =>
    rw [List.foldl_cons, List.foldl_cons, ih (init ++ escapeChar c), ih ("" ++ escapeChar c),
      String.empty_append, String.append_assoc]

theorem quote_eq (s : String) : quote s = "\"" ++ escaped s ++ "\"" := by
  rw [quote, foldl_escape, String.push_eq_append]
  rfl

theorem escaped_toList (s : String) :
    (escaped s).toList = s.toList.flatMap fun c => (escapeChar c).toList := by
  have h := foldl_escape s ""
  simp only [String.empty_append] at h
  rw [← h, String.foldl_eq_foldl_toList]
  generalize s.toList = cs
  suffices ∀ init : String, (cs.foldl (fun acc c => acc ++ escapeChar c) init).toList =
      init.toList ++ cs.flatMap fun c => (escapeChar c).toList by simpa using this ""
  induction cs with
  | nil => simp
  | cons c cs ih => intro init; simp [ih, List.append_assoc]

theorem hex4_control {c : Char} (h : c.toNat < 32) :
    hex4 '0' '0' (hexDigit (c.toNat / 16)) (hexDigit (c.toNat % 16)) = some c.toNat := by
  have h0 : hexValue '0' = some 0 := by decide
  have hi := hexValue_hexDigit (c.toNat / 16) (by omega)
  have hj := hexValue_hexDigit (c.toNat % 16) (by omega)
  simp only [hex4, h0, hi, hj, Option.pure_def, Option.bind_eq_bind, Option.bind_some]
  congr 1
  omega

theorem push_push (acc : String) (a b : Char) : (acc.push a).push b = acc ++ String.ofList [a, b] := by
  simp [← String.toList_inj]

section Plain

variable {c : Char} (r : List Char) (acc : String) (h1 : c ≠ '"') (h2 : c ≠ '\\') (h : ¬ c.toNat < 32)
include h1 h2 h

theorem scanString_plain : scanString (c :: r) acc = scanString r (acc.push c) := by
  rw [scanString.eq_5 acc c r h1 (fun _ _ _ _ _ hc _ => h2 hc) (fun _ _ hc _ => h2 hc), if_neg h]

theorem readString_plain : readString (c :: r) acc = readString r (acc.push c) := by
  rw [readString.eq_13 acc c r h1 (fun _ _ _ _ _ hc _ => h2 hc) (fun _ _ hc _ => h2 hc), if_neg h]

end Plain

theorem scanString_escapeChar (c : Char) (r : List Char) (acc : String) :
    scanString ((escapeChar c).toList ++ r) acc = scanString r (acc ++ escapeChar c) := by
  unfold escapeChar
  split
  · subst_vars; simp [scanString, push_push]
  split
  · subst_vars; simp [scanString, push_push]
  split
  · subst_vars; simp [scanString, push_push]
  split
  · subst_vars; simp [scanString, push_push]
  split
  · subst_vars; simp [scanString, push_push]
  split
  · simp [scanString, push_push]
  split
  · simp [scanString, push_push]
  split
  · rename_i h
    simp [scanString, hex4_control h]
  · rename_i h1 h2 _ _ _ _ _ h
    simp [scanString_plain r acc h1 h2 (by omega)]

theorem readString_escapeChar (c : Char) (r : List Char) (acc : String) :
    readString ((escapeChar c).toList ++ r) acc = readString r (acc.push c) := by
  unfold escapeChar
  split
  · subst_vars; simp [readString]
  split
  · subst_vars; simp [readString]
  split
  · subst_vars; simp [readString]
  split
  · subst_vars; simp [readString]
  split
  · subst_vars; simp [readString]
  split
  · rename_i h
    simp [readString]
    rw [← h, Char.ofNat_toNat]
  split
  · rename_i h
    simp [readString]
    rw [← h, Char.ofNat_toNat]
  split
  · rename_i h
    simp [readString, hex4_control h, Char.ofNat_toNat]
    rw [if_neg (by omega), if_neg (by omega)]
  · rename_i h1 h2 _ _ _ _ _ h
    simp [readString_plain r acc h1 h2 (by omega)]

theorem scanString_escaped (s : String) (rest : List Char) (acc : String) :
    scanString ((escaped s).toList ++ '"' :: rest) acc = .ok (acc ++ escaped s, rest) := by
  rw [escaped_toList, ← foldl_escape s acc, String.foldl_eq_foldl_toList]
  generalize s.toList = cs
  induction cs generalizing acc with
  | nil => simp [scanString]
  | cons c cs ih => simp [List.append_assoc, scanString_escapeChar, ih]

theorem readString_escaped (s : String) (rest : List Char) (acc : String) :
    readString ((escaped s).toList ++ '"' :: rest) acc = .ok (acc ++ s, rest) := by
  rw [escaped_toList]
  conv => rhs; rw [← String.ofList_toList (s := s)]
  generalize s.toList = cs
  induction cs generalizing acc with
  | nil => simp [readString]
  | cons c cs ih =>
    simp only [List.flatMap_cons, List.append_assoc, readString_escapeChar, ih]
    congr 2
    simp [← String.toList_inj]

@[simp] theorem unescape_escaped (s : String) : unescape (escaped s) = some s := by
  simp [unescape, readString_escaped]

@[simp] theorem decodeText_escaped (s : String) : decodeText (escaped s) = .ok s := by
  simp [decodeText]

/-- What may follow a value in indented text: nothing, a comma or a line break. -/
def Follows (rest : List Char) : Prop := ∀ c ∈ rest.head?, c = ',' ∨ c = '\n'

theorem digits_append {ds rest : List Char} (hd : ∀ c ∈ ds, c.isDigit = true)
    (hr : Follows rest) : digits (ds ++ rest) = (ds, rest) := by
  induction ds with
  | nil =>
    cases rest with
    | nil => rfl
    | cons c r => rcases hr c rfl with rfl | rfl <;> rfl
  | cons d ds ih =>
    have hds := ih fun c hc => hd c (List.mem_cons_of_mem d hc)
    simp only [digits, Prod.mk.injEq] at hds
    simp [digits, hd d (List.mem_cons_self), hds]

theorem digits_toDigits (m : Nat) {rest : List Char} (hr : Follows rest) :
    digits (Nat.toDigits 10 m ++ rest) = (Nat.toDigits 10 m, rest) :=
  digits_append (fun _ h => Nat.isDigit_of_mem_toDigits (by decide) (by decide) h) hr

theorem digitsValue_eq (ds : List Char) : digitsValue ds = Nat.ofDigitChars 10 ds 0 := by
  unfold digitsValue Nat.ofDigitChars
  congr 1
  funext acc d
  rw [Nat.mul_comm]
  rfl

theorem toDigits_head (n : Nat) (h : 0 < n) : (Nat.toDigits 10 n).head? ≠ some '0' := by
  induction n using Nat.strongRecOn with
  | ind n ih =>
    rw [Nat.toDigits_eq_if (by decide)]
    split
    · simp; omega
    · have ih' := ih (n / 10) (by omega) (by omega)
      obtain ⟨c, t, hct⟩ := List.exists_cons_of_ne_nil (Nat.toDigits_ne_nil (n := n / 10) (b := 10))
      rw [hct] at ih' ⊢
      simpa using ih'

theorem toDigits_canonical (m : Nat) :
    ¬ ((Nat.toDigits 10 m).length > 1 ∧ (Nat.toDigits 10 m).head? = some '0') := by
  rintro ⟨hlen, hhead⟩
  cases m with
  | zero => simp [Nat.toDigits_zero] at hlen
  | succ m => exact toDigits_head (m + 1) (by omega) hhead

theorem readNumber_toString (n : Int) (hn : fitsWord n = true) {rest : List Char} (hr : Follows rest) :
    readNumber ((toString n).toList ++ rest) = .ok (.num n, rest) := by
  rw [Int.toString_eq_repr, Int.repr_eq_if]
  split
  · rename_i h
    simp only [Nat.toList_repr]
    obtain ⟨c, t, hct⟩ := List.exists_cons_of_ne_nil (Nat.toDigits_ne_nil (n := n.toNat) (b := 10))
    have hc : c ≠ '-' := by
      have := Nat.isDigit_of_mem_toDigits (by decide) (by decide) (hct ▸ List.mem_cons_self)
      rintro rfl; revert this; decide
    rw [hct, List.cons_append]
    -- the sign: a digit is not a minus
    unfold readNumber
    split
    rename_i neg r hsign
    split at hsign
    · simp_all
    simp only [Prod.mk.injEq] at hsign
    obtain ⟨rfl, rfl⟩ := hsign
    rw [← List.cons_append, ← hct, digits_toDigits _ hr]
    have hcan := toDigits_canonical n.toNat
    have hne : (Nat.toDigits 10 n.toNat).isEmpty = false := by simp
    have hval : ((digitsValue (Nat.toDigits 10 n.toNat) : Nat) : Int) = n := by
      rw [digitsValue_eq, Nat.ofDigitChars_ten_toDigits]; omega
    rcases rest with _ | ⟨d, r⟩
    · simp [hcan, hne, hval, hn]
    · rcases hr d rfl with rfl | rfl <;> simp [hcan, hne, hval, hn]
  · rename_i h
    have hminus : "-".toList = ['-'] := rfl
    simp only [String.toList_append, Nat.toList_repr, hminus, List.cons_append, List.nil_append, readNumber]
    rw [digits_toDigits _ hr]
    have hcan := toDigits_canonical (-n).toNat
    have hne : (Nat.toDigits 10 (-n).toNat).isEmpty = false := by simp
    have hval : -((digitsValue (Nat.toDigits 10 (-n).toNat) : Nat) : Int) = n := by
      rw [digitsValue_eq, Nat.ofDigitChars_ten_toDigits]; omega
    have hnz : n ≠ 0 := by omega
    rcases rest with _ | ⟨d, r⟩
    · simp [hcan, hne, hval, hn, hnz]
    · rcases hr d rfl with rfl | rfl <;> simp [hcan, hne, hval, hn, hnz]

@[simp] theorem skipWs_newline (cs : List Char) : skipWs ('\n' :: cs) = skipWs cs := by
  simp [skipWs]

@[simp] theorem skipWs_space (cs : List Char) : skipWs (' ' :: cs) = skipWs cs := by
  simp [skipWs]

@[simp] theorem skipWs_indent (d : Nat) (cs : List Char) : skipWs ((indent d).toList ++ cs) = skipWs cs := by
  simp only [indent, String.toList_ofList]
  generalize 2 * d = k
  induction k with
  | zero => rfl
  | succ k ih => simp [List.replicate_succ, ih]

theorem skipWs_cons {c : Char} (h : c ∉ [' ', '\t', '\n', '\r']) (r : List Char) :
    skipWs (c :: r) = c :: r := by
  rw [skipWs.eq_5] <;> simp_all

section Congr

variable {cs cs' : List Char} (h : skipWs cs = skipWs cs') (a : Bool) (fuel : Nat)
include h

theorem readValue_congr : readValue a fuel cs = readValue a fuel cs' := by
  cases fuel with
  | zero => simp [readValue]
  | succ f => simp only [readValue, h]

theorem readItems_congr (acc : List Json) : readItems a fuel cs acc = readItems a fuel cs' acc := by
  cases fuel with
  | zero => simp [readItems]
  | succ f => simp only [readItems, readValue_congr h]

theorem readMembers_congr (acc : List (String × Json)) :
    readMembers a fuel cs acc = readMembers a fuel cs' acc := by
  cases fuel with
  | zero => simp [readMembers]
  | succ f => simp only [readMembers, h]

end Congr

/-- Documents whose indented text reads back as written: every number is an integer of a
64-bit word, so none is kept as text. -/
inductive Writable : Json → Prop
  | null : Writable .null
  | bool (b : Bool) : Writable (.bool b)
  | num (n : Int) : fitsWord n = true → Writable (.num n)
  | str (s : String) : Writable (.str s)
  | arr (xs : List Json) : (∀ x ∈ xs, Writable x) → Writable (.arr xs)
  | obj (ms : List (String × Json)) : (∀ m ∈ ms, Writable m.2) → Writable (.obj ms)

attribute [simp] Writable.null Writable.bool Writable.str

@[simp] theorem Writable.num_iff {n : Int} : Writable (.num n) ↔ fitsWord n = true :=
  ⟨fun h => by cases h; assumption, Writable.num n⟩

@[simp] theorem Writable.arr_iff {xs : List Json} : Writable (.arr xs) ↔ ∀ x ∈ xs, Writable x :=
  ⟨fun h => by cases h; assumption, Writable.arr xs⟩

@[simp] theorem Writable.obj_iff {ms : List (String × Json)} : Writable (.obj ms) ↔ ∀ m ∈ ms, Writable m.2 :=
  ⟨fun h => by cases h; assumption, Writable.obj ms⟩

@[simp] theorem fitsWord_natCast {n : Nat} : fitsWord n = true ↔ n < 18446744073709551616 := by
  simp only [fitsWord, Bool.and_eq_true, decide_eq_true_eq, Nat.pow_eq]
  omega

/-- The first character of an integer's text. -/
def NumberStart (c : Char) : Prop := c = '-' ∨ c.isDigit = true

/-- The first character of a value's text: a letter of a literal, a quote, an opening bracket,
or the start of a number. -/
def ValueStart (c : Char) : Prop := c ∈ ['n', 't', 'f', '"', '[', '\x7b'] ∨ NumberStart c

theorem NumberStart.not_mem {c : Char} (hc : NumberStart c) :
    c ∉ [' ', '\t', '\n', '\r', ']', 'n', 't', 'f', '"', '[', '\x7b'] := by
  rcases hc with rfl | hc
  · decide
  · intro hm
    simp only [List.mem_cons, List.not_mem_nil, or_false] at hm
    rcases hm with rfl | rfl | rfl | rfl | rfl | rfl | rfl | rfl | rfl | rfl | rfl <;> revert hc <;> decide

theorem ValueStart.not_mem {c : Char} (hc : ValueStart c) : c ∉ [' ', '\t', '\n', '\r', ']'] := by
  rcases hc with hc | hc
  · simp only [List.mem_cons, List.not_mem_nil, or_false] at hc
    rcases hc with rfl | rfl | rfl | rfl | rfl | rfl <;> decide
  · intro hm
    apply hc.not_mem
    simp only [List.mem_cons, List.not_mem_nil, or_false] at hm ⊢
    rcases hm with h | h | h | h | h <;> simp [h]

theorem ValueStart.skipWs {c : Char} (hc : ValueStart c) (r : List Char) : skipWs (c :: r) = c :: r :=
  skipWs_cons (fun h => hc.not_mem (List.mem_append_left [']'] h)) r

theorem ValueStart.ne_close {c : Char} (hc : ValueStart c) : c ≠ ']' :=
  fun h => hc.not_mem (by simp [h])

theorem toString_head (n : Int) : ∃ c, (toString n).toList.head? = some c ∧ NumberStart c := by
  rw [Int.toString_eq_repr, Int.repr_eq_if]
  split
  · obtain ⟨c, t, hct⟩ := List.exists_cons_of_ne_nil (Nat.toDigits_ne_nil (n := n.toNat) (b := 10))
    exact ⟨c, by simp [hct], .inr (Nat.isDigit_of_mem_toDigits (by decide) (by decide) (hct ▸ List.mem_cons_self))⟩
  · exact ⟨'-', by simp, .inl rfl⟩

theorem pretty_head {j : Json} (hj : Writable j) (d : Nat) :
    ∃ c, (pretty d j).toList.head? = some c ∧ ValueStart c := by
  cases hj with
  | null => exact ⟨'n', by simp [pretty, render], .inl (by decide)⟩
  | bool b => cases b <;> simp [pretty, render, ValueStart]
  | num n _ =>
    obtain ⟨c, hc, hs⟩ := toString_head n
    exact ⟨c, by simpa [pretty, render] using hc, .inr hs⟩
  | str s => exact ⟨'"', by simp [pretty, render, quote_eq], .inl (by decide)⟩
  | arr xs _ => cases xs <;> exact ⟨'[', by simp [pretty], .inl (by decide)⟩
  | obj ms _ => cases ms <;> exact ⟨'\x7b', by simp [pretty], .inl (by decide)⟩

theorem readValue_number {c : Char} (hc : NumberStart c) (a : Bool) (f : Nat) (r : List Char) :
    readValue a (f + 1) (c :: r) = readNumber (c :: r) := by
  have hne := hc.not_mem
  simp only [List.mem_cons, List.not_mem_nil, or_false, not_or] at hne
  simp only [readValue, ValueStart.skipWs (.inr hc)]
  split <;> simp_all
  -- the dispatch on the first character falls through to the number reader
  intro hm hd
  simp_all [NumberStart]

theorem readValue_open_arr {r u : List Char} {c : Char} (hr : skipWs r = c :: u) (hc : c ≠ ']')
    (a : Bool) (f : Nat) : readValue a (f + 1) ('[' :: r) = readItems a f r [] := by
  simp only [readValue, skipWs_cons (c := '[') (by decide), hr]
  split <;> simp_all

theorem readValue_open_obj {r u : List Char} {c : Char} (hr : skipWs r = c :: u) (hc : c ≠ '\x7d')
    (a : Bool) (f : Nat) : readValue a (f + 1) ('\x7b' :: r) = readMembers a f r [] := by
  simp only [readValue, skipWs_cons (c := '\x7b') (by decide), hr]
  split <;> simp_all

theorem prettyItems_cons (d : Nat) (x : Json) (xs : List Json) :
    (prettyItems d (x :: xs)).toList = (indent d).toList ++ (pretty d x).toList ++
      (if xs = [] then [] else ',' :: '\n' :: (prettyItems d xs).toList) := by
  cases xs with
  | nil => simp [prettyItems]
  | cons y ys => rw [prettyItems.eq_3 _ _ _ (List.cons_ne_nil y ys)]; simp

theorem prettyMembers_cons (d : Nat) (k : String) (v : Json) (ms : List (String × Json)) :
    (prettyMembers d ((k, v) :: ms)).toList = (indent d ++ quote k ++ ": " ++ pretty d v).toList ++
      (if ms = [] then [] else ',' :: '\n' :: (prettyMembers d ms).toList) := by
  cases ms with
  | nil => simp [prettyMembers]
  | cons m2 ms => rw [prettyMembers.eq_3 _ _ _ _ (List.cons_ne_nil m2 ms)]; simp

/-- The text of `j` at depth `d` reads back as written, whatever may follow a value. -/
def ReadsBack (d : Nat) (j : Json) : Prop :=
  ∀ rest fuel, Follows rest → (pretty d j).toList.length < fuel →
    readValue true fuel ((pretty d j).toList ++ rest) = .ok (asWritten j, rest)

theorem follows_tail {α : Type} (xs : List α) (t u : List Char) :
    Follows ((if xs = [] then [] else ',' :: '\n' :: t) ++ '\n' :: u) := by
  split <;> simp [Follows]

theorem readItems_pretty {d : Nat} {xs : List Json} (hxs : ∀ x ∈ xs, ReadsBack d x) (hne : xs ≠ [])
    (d' : Nat) (rest : List Char) (acc : List Json) {fuel : Nat}
    (hf : (prettyItems d xs).toList.length + 2 ≤ fuel) :
    readItems true fuel ((prettyItems d xs).toList ++ '\n' :: ((indent d').toList ++ ']' :: rest)) acc =
      .ok (.arr (acc.reverse ++ itemsAsWritten xs), rest) := by
  induction xs generalizing acc fuel with
  | nil => contradiction
  | cons x xs ih =>
    obtain ⟨f, rfl⟩ : ∃ f, fuel = f + 1 := ⟨fuel - 1, by omega⟩
    rw [prettyItems_cons] at hf ⊢
    simp only [List.length_append] at hf
    simp only [readItems, List.append_assoc]
    rw [readValue_congr (skipWs_indent ..),
      hxs x List.mem_cons_self _ _ (follows_tail _ _ _) (by omega)]
    simp only [ok_bind]
    -- the last item is followed by the closing line, any other by a comma
    by_cases hnil : xs = []
    · subst hnil
      simp [itemsAsWritten, skipWs]
    · simp only [hnil, if_false, List.cons_append] at hf ⊢
      rw [skipWs_cons (by decide)]
      simp only []
      rw [readItems_congr (skipWs_newline _),
        @ih (fun y hy => hxs y (List.mem_cons_of_mem x hy)) hnil _ f (by simp at hf; omega)]
      simp [itemsAsWritten]

theorem member_toList (d : Nat) (k : String) (v : Json) :
    (indent d ++ quote k ++ ": " ++ pretty d v).toList =
      (indent d).toList ++ '"' :: ((escaped k).toList ++ '"' :: ':' :: ' ' :: (pretty d v).toList) := by
  simp [quote_eq]

theorem readMembers_pretty {d : Nat} {ms : List (String × Json)} (hms : ∀ m ∈ ms, ReadsBack d m.2)
    (hne : ms ≠ []) (d' : Nat) (rest : List Char) (acc : List (String × Json)) {fuel : Nat}
    (hf : (prettyMembers d ms).toList.length + 2 ≤ fuel) :
    readMembers true fuel ((prettyMembers d ms).toList ++ '\n' :: ((indent d').toList ++ '\x7d' :: rest)) acc =
      .ok (.obj (acc.reverse ++ membersAsWritten ms), rest) := by
  induction ms generalizing acc fuel with
  | nil => contradiction
  | cons m ms ih =>
    obtain ⟨f, rfl⟩ : ∃ f, fuel = f + 1 := ⟨fuel - 1, by omega⟩
    obtain ⟨k, v⟩ := m
    have hv : ReadsBack d v := hms (k, v) List.mem_cons_self
    rw [prettyMembers_cons] at hf ⊢
    rw [member_toList] at hf ⊢
    simp only [List.length_append, List.length_cons] at hf
    -- the key, its colon, then the value after one space
    simp only [readMembers, List.append_assoc, List.cons_append, skipWs_indent]
    rw [skipWs_cons (by decide)]
    simp only [readText, if_true, scanString_escaped, ok_bind]
    rw [skipWs_cons (by decide)]
    simp only []
    rw [readValue_congr (skipWs_space _), hv _ _ (follows_tail _ _ _) (by omega)]
    simp only [ok_bind]
    by_cases hnil : ms = []
    · subst hnil
      simp [membersAsWritten, skipWs]
    · simp only [hnil, if_false, List.cons_append] at hf ⊢
      rw [skipWs_cons (by decide)]
      simp only []
      rw [readMembers_congr (skipWs_newline _),
        @ih (fun m hm => hms m (List.mem_cons_of_mem _ hm)) hnil _ f (by simp at hf; omega)]
      simp [membersAsWritten]

theorem readValue_pretty {j : Json} (hj : Writable j) (d : Nat) : ReadsBack d j := by
  induction hj generalizing d with
  | null =>
    intro rest fuel _ hf
    obtain ⟨f, rfl⟩ : ∃ f, fuel = f + 1 := ⟨fuel - 1, by omega⟩
    simp [pretty, render, readValue, skipWs, asWritten]
  | bool b =>
    intro rest fuel _ hf
    obtain ⟨f, rfl⟩ : ∃ f, fuel = f + 1 := ⟨fuel - 1, by omega⟩
    cases b <;> simp [pretty, render, readValue, skipWs, asWritten]
  | num n hn =>
    intro rest fuel hr hf
    obtain ⟨f, rfl⟩ : ∃ f, fuel = f + 1 := ⟨fuel - 1, by omega⟩
    have hp : pretty d (.num n) = toString n := by simp [pretty, render]
    obtain ⟨c, hc, hs⟩ := toString_head n
    obtain ⟨u, hu⟩ := List.head?_eq_some_iff.mp hc
    rw [hp, hu, List.cons_append, readValue_number hs, ← List.cons_append, ← hu,
      readNumber_toString n hn hr]
    rfl
  | str s =>
    intro rest fuel _ hf
    obtain ⟨f, rfl⟩ : ∃ f, fuel = f + 1 := ⟨fuel - 1, by omega⟩
    simp [pretty, render, quote_eq, readValue, skipWs, readText, scanString_escaped, asWritten]
  | arr xs hxs ih =>
    intro rest fuel _ hf
    obtain ⟨f, rfl⟩ : ∃ f, fuel = f + 1 := ⟨fuel - 1, by omega⟩
    cases xs with
    | nil => simp [pretty, readValue, skipWs, asWritten, itemsAsWritten]
    | cons x xs =>
      rw [pretty.eq_3 _ _ (List.cons_ne_nil x xs)] at hf ⊢
      simp only [String.toList_append, List.length_append] at hf
      have htext : ("[\n" ++ prettyItems (d + 1) (x :: xs) ++ "\n" ++ indent d ++ "]").toList ++ rest =
          '[' :: '\n' :: ((prettyItems (d + 1) (x :: xs)).toList ++ '\n' :: ((indent d).toList ++ ']' :: rest)) := by
        simp
      obtain ⟨c, hc, hs⟩ := pretty_head (hxs x List.mem_cons_self) (d + 1)
      obtain ⟨u, hu⟩ := List.head?_eq_some_iff.mp hc
      have hskip : ∃ w, skipWs ('\n' :: ((prettyItems (d + 1) (x :: xs)).toList ++
          '\n' :: ((indent d).toList ++ ']' :: rest))) = c :: w := by
        rw [skipWs_newline, prettyItems_cons, List.append_assoc, List.append_assoc, skipWs_indent, hu,
          List.cons_append, hs.skipWs]
        exact ⟨_, rfl⟩
      obtain ⟨w, hw⟩ := hskip
      rw [htext, readValue_open_arr hw hs.ne_close, readItems_congr (skipWs_newline _),
        readItems_pretty (fun y hy => ih y hy (d + 1)) (List.cons_ne_nil x xs) d rest [] (by simp at hf; omega)]
      simp [asWritten]
  | obj ms hms ih =>
    intro rest fuel _ hf
    obtain ⟨f, rfl⟩ : ∃ f, fuel = f + 1 := ⟨fuel - 1, by omega⟩
    cases ms with
    | nil => simp [pretty, readValue, skipWs, asWritten, membersAsWritten]
    | cons m ms =>
      obtain ⟨k, v⟩ := m
      rw [pretty.eq_4 _ _ (List.cons_ne_nil _ ms)] at hf ⊢
      simp only [String.toList_append, List.length_append] at hf
      have htext : ("\x7b\n" ++ prettyMembers (d + 1) ((k, v) :: ms) ++ "\n" ++ indent d ++ "\x7d").toList ++ rest =
          '\x7b' :: '\n' :: ((prettyMembers (d + 1) ((k, v) :: ms)).toList ++
            '\n' :: ((indent d).toList ++ '\x7d' :: rest)) := by
        simp
      have hw : ∃ w, skipWs ('\n' :: ((prettyMembers (d + 1) ((k, v) :: ms)).toList ++
          '\n' :: ((indent d).toList ++ '\x7d' :: rest))) = '"' :: w := by
        rw [skipWs_newline, prettyMembers_cons, member_toList]
        simp only [List.append_assoc, skipWs_indent, List.cons_append]
        exact ⟨_, skipWs_cons (by decide) _⟩
      obtain ⟨w, hw⟩ := hw
      rw [htext, readValue_open_obj hw (by decide), readMembers_congr (skipWs_newline _),
        readMembers_pretty (fun m hm => ih m hm (d + 1)) (List.cons_ne_nil _ ms) d rest [] (by simp at hf; omega)]
      simp [asWritten]

theorem parseWritten_pretty {j : Json} (hj : Writable j) : parseWritten (pretty 0 j) = .ok (asWritten j) := by
  have h := readValue_pretty hj 0 [] ((pretty 0 j).toList.length + 1) (by simp [Follows]) (by omega)
  simp only [List.append_nil] at h
  simp [parseWritten, parseWith, h, skipWs]

end ContractCfg.Json
