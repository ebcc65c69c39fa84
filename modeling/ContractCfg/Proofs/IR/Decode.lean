import ContractCfg.IR.Json
import ContractCfg.Proofs.Json.Pretty
import ContractCfg.Proofs.OrderedMap

/-!
Reading the saved form back. Each encoder of the intermediate representation, read back as
written, gives the value it encoded: operands always, and types, instructions, terminators,
blocks and functions when every number in them fits the field it is read into (`inRange`), the
keys of their maps are distinct and they nest no deeper than the room their position leaves. A
type nested deeper is not read back at all.
-/

namespace ContractCfg.IR

open ContractCfg.Json

theorem error_bind {α β : Type} (e : String) (f : α → Except String β) :
    (Except.error e >>= f) = .error e := rfl

theorem throw_eq_error {α : Type} (e : String) : (throw e : Except String α) = .error e := rfl

-- Decoding is a chain of `Except` steps; these unfold them in this module only, so that `simp`
-- elsewhere in the library keeps its meaning.
attribute [local simp] ok_bind pure_eq_ok map_ok error_bind throw_eq_error

@[simp] theorem writtenVariant_escaped (k : String) (v : Json) :
    writtenVariant (.obj [(escaped k, v)]) = .ok (k, v) := by
  simp [writtenVariant]

@[simp] theorem writtenText_escaped (s : String) : writtenText (.str (escaped s)) = .ok s := by
  simp [writtenText]

@[simp] theorem writtenName?_escaped (s : String) : writtenName? (.str (escaped s)) = some s := by
  simp [writtenName?]

theorem writtenNamed_escaped {α : Type} {f : String → Option α} {s : String} {a : α} (h : f s = some a) :
    writtenNamed f (.str (escaped s)) = .ok a := by
  simp [writtenNamed, h]

theorem mapM_eq_ok_map {α β ε : Type} {f : α → Except ε β} {g : α → β} {l : List α}
    (h : ∀ x ∈ l, f x = .ok (g x)) : l.mapM f = .ok (l.map g) := by
  induction l with
  | nil => rfl
  | cons x xs ih =>
    simp only [List.mapM_cons, h x List.mem_cons_self, ok_bind,
      ih fun y hy => h y (List.mem_cons_of_mem x hy)]
    rfl

theorem mapM_eq_ok_self {α ε : Type} {f : α → Except ε α} {l : List α} (h : ∀ x ∈ l, f x = .ok x) :
    l.mapM f = .ok l := by
  simpa using mapM_eq_ok_map (g := id) h

theorem find?_name {α : Type} (all : List α) (name : α → String) (hnames : (all.map name).Nodup)
    {a : α} (ha : a ∈ all) : all.find? (name · == name a) = some a := by
  induction all with
  | nil => cases ha
  | cons x xs ih =>
    simp only [List.map_cons, List.nodup_cons, List.mem_map] at hnames
    rcases List.mem_cons.mp ha with rfl | ha
    · simp
    · have hx : name x ≠ name a := fun h => hnames.1 ⟨a, ha, h.symm⟩
      simp [hx, ih hnames.2 ha]

theorem BinOp.ofName?_variantName (op : BinOp) : BinOp.ofName? op.variantName = some op :=
  find?_name BinOp.all BinOp.variantName (by decide) (by cases op <;> decide)

theorem UnOp.ofName?_variantName (op : UnOp) : UnOp.ofName? op.variantName = some op :=
  find?_name [UnOp.not, .isZero] UnOp.variantName (by decide) (by cases op <;> decide)

theorem Builtin.ofName?_variantName (b : Builtin) : Builtin.ofName? b.variantName = some b :=
  find?_name _ Builtin.variantName (by decide) (by cases b <;> decide)

theorem ContextVar.ofName?_variantName (x : ContextVar) : ContextVar.ofName? x.variantName = some x :=
  find?_name _ ContextVar.variantName (by decide) (by cases x <;> decide)

theorem Visibility.ofName?_variantName (v : Visibility) : Visibility.ofName? v.variantName = some v :=
  find?_name _ Visibility.variantName (by decide) (by cases v <;> decide)

theorem Mutability.ofName?_variantName (m : Mutability) : Mutability.ofName? m.variantName = some m :=
  find?_name _ Mutability.variantName (by decide) (by cases m <;> decide)

@[simp] theorem itemsAsWritten_eq_map (xs : List Json) : itemsAsWritten xs = xs.map asWritten := by
  induction xs with
  | nil => rfl
  | cons x xs ih => simp [itemsAsWritten, ih]

@[simp] theorem membersAsWritten_eq_map (ms : List (String × Json)) :
    membersAsWritten ms = ms.map fun m => (escaped m.1, asWritten m.2) := by
  induction ms with
  | nil => rfl
  | cons m ms ih => simp [membersAsWritten, ih]

theorem depth_le_itemsDepth {x : Json} {xs : List Json} (hx : x ∈ xs) : x.depth ≤ Json.itemsDepth xs := by
  induction xs with
  | nil => cases hx
  | cons y ys ih =>
    rcases List.mem_cons.mp hx with rfl | hx
    · simp only [Json.itemsDepth]; exact Nat.le_max_left _ _
    · simp only [Json.itemsDepth]; have := ih hx; omega

theorem depth_le_membersDepth {m : String × Json} {ms : List (String × Json)} (hm : m ∈ ms) :
    m.2.depth ≤ Json.membersDepth ms := by
  induction ms with
  | nil => cases hm
  | cons n ns ih =>
    obtain ⟨k, v⟩ := n
    rcases List.mem_cons.mp hm with rfl | hm
    · simp only [Json.membersDepth]; exact Nat.le_max_left _ _
    · simp only [Json.membersDepth]; have := ih hm; omega

theorem depth_lt_obj {k : String} {v : Json} {ms : List (String × Json)} (h : (k, v) ∈ ms) :
    v.depth < (Json.obj ms).depth := by
  have : v.depth ≤ Json.membersDepth ms := depth_le_membersDepth h
  simp only [Json.depth]; omega

theorem depth_lt_arr {x : Json} {xs : List Json} (h : x ∈ xs) : x.depth < (Json.arr xs).depth := by
  have := depth_le_itemsDepth h
  simp only [Json.depth]; omega

theorem depth_add_lt {a b : Json} {n : Nat} (h : a.depth < b.depth) : a.depth + (n + 1) ≤ b.depth + n := by
  omega

theorem toNatBelow_num {n bound : Nat} (h : n < bound) : toNatBelow bound (.num n) = .ok n := by
  simp [toNatBelow, Json.toNat, h]

theorem limbs_spec (m : Nat) : (∀ d ∈ limbs m, d < Nat.pow 2 32) ∧ ofLimbs (limbs m) = m := by
  induction m using Nat.strongRecOn with
  | ind m ih =>
    cases m with
    | zero => simp [limbs, ofLimbs]
    | succ m =>
      obtain ⟨hlt, hval⟩ := ih ((m + 1) / 4294967296) (by omega)
      rw [limbs]
      refine ⟨?_, ?_⟩
      · intro d hd
        rcases List.mem_cons.mp hd with rfl | hd
        · exact Nat.mod_lt _ (by decide)
        · exact hlt d hd
      · simp only [ofLimbs, List.foldr_cons] at hval ⊢
        have hpow : Nat.pow 2 32 = 4294967296 := rfl
        rw [hval, hpow]
        omega

@[simp] theorem asWritten_ofBig (n : Int) : asWritten (ofBig n) = ofBig n := by
  simp [ofBig, asWritten, Function.comp_def]

theorem toBig_ofBig (n : Int) : toBig (ofBig n) = .ok n := by
  obtain ⟨hlt, hval⟩ := limbs_spec n.natAbs
  have hds : ((limbs n.natAbs).map fun d : Nat => Json.num (Int.ofNat d)).mapM (toNatBelow (Nat.pow 2 32)) =
      .ok (limbs n.natAbs) := by
    rw [List.mapM_map]
    exact mapM_eq_ok_self fun d hd => toNatBelow_num (hlt d hd)
  simp only [toBig, ofBig, Json.toList, ok_bind, hds, hval]
  -- the sign is -1, 0 or 1, and times the magnitude it gives the number back
  generalize hs : (if n < 0 then -1 else if n = 0 then 0 else 1 : Int) = s
  have hrange : -1 ≤ s ∧ s ≤ 1 ∧ s * (n.natAbs : Int) = n := by
    rw [← hs]
    by_cases h1 : n < 0
    · simp only [h1, if_true]; omega
    · by_cases h2 : n = 0
      · subst h2; decide
      · simp only [h1, h2, if_false]; omega
  have hcheck : (decide (s < -1) || decide (s > 1)) = false := by
    simp only [Bool.or_eq_false_iff, decide_eq_false_iff_not]
    omega
  simp only [hcheck, Bool.false_eq_true, if_false, pure_eq_ok, hrange.2.2]

namespace Ty

/-- Every number in the type fits the field its saved form is read into: 16-bit integer
widths, 8-bit byte counts, 32-bit struct ids and 64-bit array lengths. -/
def inRange : Ty → Bool
  | .uint b | .int b => b < 65536
  | .fixedBytes n => n < 256
  | .array e len => e.inRange && len.all (· < Nat.pow 2 64)
  | .mapping k v => k.inRange && v.inRange
  | .struct id => id < Nat.pow 2 32
  | .bool | .address | .contract _ => true

theorem ofJson_toJson {t : Ty} (ht : t.inRange) {room : Nat} (hroom : t.toJson.depth ≤ room) :
    Ty.ofJson room (asWritten t.toJson) = .ok t := by
  induction t generalizing room with
  | bool => simp [toJson, asWritten, ofJson]
  | address => simp [toJson, asWritten, ofJson]
  | uint b | int b | fixedBytes b | struct b =>
    obtain ⟨r, rfl⟩ : ∃ r, room = r + 1 :=
      ⟨room - 1, by simp [toJson, Json.depth, Json.membersDepth] at hroom; omega⟩
    simp only [inRange, decide_eq_true_eq] at ht
    simp [toJson, asWritten, membersAsWritten, ofJson, writtenName?, toNatBelow_num ht]
  | contract n =>
    obtain ⟨r, rfl⟩ : ∃ r, room = r + 1 :=
      ⟨room - 1, by simp [toJson, Json.depth, Json.membersDepth] at hroom; omega⟩
    simp [toJson, asWritten, membersAsWritten, ofJson, writtenName?]
  | array e len ih =>
    simp only [inRange, Bool.and_eq_true] at ht
    have hd : e.toJson.depth + 2 ≤ room := by
      cases len <;> simp [toJson, Json.depth, Json.itemsDepth, Json.membersDepth] at hroom <;> omega
    obtain ⟨r, rfl⟩ : ∃ r, room = r + 2 := ⟨room - 2, by omega⟩
    have he := @ih ht.1 r (by omega)
    cases len with
    | none =>
      simp [toJson, asWritten, itemsAsWritten, membersAsWritten, ofJson, writtenName?, he, Json.toOption]
    | some n =>
      have hn : n < Nat.pow 2 64 := by simpa using ht.2
      simp [toJson, asWritten, itemsAsWritten, membersAsWritten, ofJson, writtenName?, he, Json.toOption,
        toNatBelow_num hn]
  | mapping k v ihk ihv =>
    simp only [inRange, Bool.and_eq_true] at ht
    have hd : k.toJson.depth + 2 ≤ room ∧ v.toJson.depth + 2 ≤ room := by
      simp [toJson, Json.depth, Json.itemsDepth, Json.membersDepth] at hroom; omega
    obtain ⟨r, rfl⟩ : ∃ r, room = r + 2 := ⟨room - 2, by omega⟩
    simp [toJson, asWritten, itemsAsWritten, membersAsWritten, ofJson, writtenName?,
      @ihk ht.1 r (by omega), @ihv ht.2 r (by omega)]

theorem ofJson_toJson_of_lt {t : Ty} {room : Nat} (h : room < t.toJson.depth) :
    ∃ e, Ty.ofJson room (asWritten t.toJson) = .error e := by
  induction t generalizing room with
  | bool | address => simp [toJson, Json.depth] at h
  | uint b | int b | fixedBytes b | struct b | contract b =>
    obtain rfl : room = 0 := by simp [toJson, Json.depth, Json.membersDepth] at h; omega
    exact ⟨"nesting too deep", by simp [toJson, asWritten, ofJson]⟩
  | array e len ih =>
    have hd : room < e.toJson.depth + 2 := by
      cases len <;> simp [toJson, Json.depth, Json.itemsDepth, Json.membersDepth] at h <;> omega
    rcases room with _ | _ | r
    · exact ⟨"nesting too deep", by simp [toJson, asWritten, ofJson]⟩
    · exact ⟨"unknown type", by cases len <;> simp [toJson, asWritten, ofJson, writtenName?]⟩
    · obtain ⟨err, herr⟩ := @ih r (by omega)
      exact ⟨err, by cases len <;> simp [toJson, asWritten, ofJson, writtenName?, herr]⟩
  | mapping k v ihk ihv =>
    have hd : room < k.toJson.depth + 2 ∨ room < v.toJson.depth + 2 := by
      simp [toJson, Json.depth, Json.itemsDepth, Json.membersDepth] at h; omega
    rcases room with _ | _ | r
    · exact ⟨"nesting too deep", by simp [toJson, asWritten, ofJson]⟩
    · exact ⟨"unknown type", by simp [toJson, asWritten, ofJson, writtenName?]⟩
    -- the key is read first: it fails, or it is read and the value fails
    · cases hk : Ty.ofJson r (asWritten k.toJson) with
      | error err => exact ⟨err, by simp [toJson, asWritten, ofJson, writtenName?, hk]⟩
      | ok k' =>
        have hv : r < v.toJson.depth := by
          rcases hd with hd | hd
          · obtain ⟨err, herr⟩ := @ihk r (by omega)
            rw [herr] at hk; cases hk
          · omega
        obtain ⟨err, herr⟩ := @ihv r hv
        exact ⟨err, by simp [toJson, asWritten, ofJson, writtenName?, hk, herr]⟩

end Ty

@[simp] theorem Value.ofJson_toJson (v : Value) : Value.ofJson (asWritten v.toJson) = .ok v := by
  rcases v with n | b | n
  · simp [Value.toJson, Value.ofJson, asWritten]
  · simp [Value.toJson, Value.ofJson, asWritten, Json.toBool]
  · simp [Value.toJson, Value.ofJson, asWritten, toBig_ofBig]

@[simp] theorem valuesOfJson_toJson (vs : List Value) : valuesOfJson (asWritten (valuesToJson vs)) = .ok vs := by
  simp only [valuesToJson, asWritten, itemsAsWritten_eq_map, List.map_map, valuesOfJson, Json.toList, ok_bind,
    List.mapM_map]
  exact mapM_eq_ok_self fun v _ => Value.ofJson_toJson v

/-- Every number in the instruction fits its field: bit counts are 16-bit and copied types are
in range. -/
def Instr.inRange : Instr → Bool
  | .truncate _ _ b | .signExtend _ _ b => b < 65536
  | .copyStorageToStorage _ _ t | .copyMemoryToStorage _ _ t | .copyStorageToMemory _ _ t => t.inRange
  | _ => true

theorem Instr.ofJson_toJson {i : Instr} (hi : i.inRange) {room : Nat} (hroom : i.toJson.depth ≤ room) :
    Instr.ofJson room (asWritten i.toJson) = .ok i := by
  cases i
  all_goals
    simp only [Instr.toJson, asWritten, membersAsWritten_eq_map, List.map_cons, List.map_nil]
    rw [Instr.ofJson]
    simp only [writtenVariant_escaped, ok_bind, fieldsOf, writtenFields, writtenKeys, List.mapM_cons,
      List.mapM_nil, decodeText_escaped, pure_eq_ok]
  case truncate r v b | signExtend r v b =>
    simp only [Instr.inRange, decide_eq_true_eq] at hi
    simp [req, toNatBelow_num hi]
  case copyStorageToStorage d s t | copyMemoryToStorage d s t | copyStorageToMemory d s t =>
    simp only [Instr.inRange] at hi
    have ht : t.toJson.depth ≤ room - 2 := by
      simp [Instr.toJson, Json.depth, Json.membersDepth] at hroom; omega
    simp [req, Ty.ofJson_toJson hi ht]
  all_goals simp [req, writtenNamed_escaped, BinOp.ofName?_variantName, UnOp.ofName?_variantName,
    Builtin.ofName?_variantName, ContextVar.ofName?_variantName]

theorem writtenName?_variant {k : String} {v : Json} (h : v ≠ .null) : writtenName? (.obj [(k, v)]) = none := by
  cases v <;> simp_all [writtenName?]

theorem Value.asWritten_toJson_ne_null (v : Value) : asWritten v.toJson ≠ .null := by
  rcases v with _ | _ | _ <;> simp [Value.toJson, asWritten]

/-- Block ids named by a terminator are 32-bit. -/
def Terminator.inRange : Terminator → Bool
  | .jump t => t < Nat.pow 2 32
  | .branch _ t e => t < Nat.pow 2 32 && e < Nat.pow 2 32
  | _ => true

theorem Terminator.ofJson_toJson {t : Terminator} (ht : t.inRange) :
    Terminator.ofJson (asWritten t.toJson) = .ok t := by
  cases t with
  | jump b =>
    simp only [Terminator.inRange, decide_eq_true_eq] at ht
    simp [Terminator.toJson, Terminator.ofJson, asWritten, writtenName?, toNatBelow_num ht]
  | branch c b e =>
    simp only [Terminator.inRange, Bool.and_eq_true, decide_eq_true_eq] at ht
    simp [Terminator.toJson, Terminator.ofJson, asWritten, writtenName?, fieldsOf, writtenFields,
      writtenKeys, req, toNatBelow_num ht.1, toNatBelow_num ht.2]
  | ret vs =>
    have hne : asWritten (valuesToJson vs) ≠ .null := by simp [valuesToJson, asWritten]
    simp [Terminator.toJson, Terminator.ofJson, asWritten, writtenName?_variant hne]
  | revert v =>
    simp [Terminator.toJson, Terminator.ofJson, asWritten, writtenName?_variant (Value.asWritten_toJson_ne_null v)]
  | abort => simp [Terminator.toJson, Terminator.ofJson, asWritten]
  | invalid => simp [Terminator.toJson, Terminator.ofJson, asWritten]

/-- Every id in the block is 32-bit and every instruction and the terminator are in range. -/
def Block.inRange (b : Block) : Bool :=
  b.id < Nat.pow 2 32 && b.instrs.all Instr.inRange && b.term.inRange

theorem Block.depth_instr {b : Block} {i : Instr} (hi : i ∈ b.instrs.toList) :
    i.toJson.depth + 2 ≤ b.toJson.depth :=
  calc i.toJson.depth + 2
      ≤ (Json.arr (b.instrs.toList.map Instr.toJson)).depth + 1 := depth_add_lt (depth_lt_arr (List.mem_map_of_mem hi))
    _ ≤ b.toJson.depth := depth_lt_obj (k := "instructions") (by simp)

theorem Block.ofJson_toJson {b : Block} (hb : b.inRange) {room : Nat} (hroom : b.toJson.depth ≤ room) :
    Block.ofJson room (asWritten b.toJson) = .ok b := by
  simp only [Block.inRange, Bool.and_eq_true, decide_eq_true_eq, Array.all_eq_true_iff_forall_mem] at hb
  obtain ⟨⟨hid, hinstrs⟩, hterm⟩ := hb
  have hall : ∀ i ∈ b.instrs.toList, Instr.ofJson (room - 2) (asWritten i.toJson) = .ok i := fun i hi =>
    Instr.ofJson_toJson (hinstrs i (Array.mem_toList_iff.mp hi)) (by have := Block.depth_instr hi; omega)
  have hmap : b.instrs.toList.mapM (Instr.ofJson (room - 2) ∘ asWritten ∘ Instr.toJson) = .ok b.instrs.toList :=
    mapM_eq_ok_self hall
  simp [Block.toJson, Block.ofJson, asWritten, fieldsOf, writtenFields, writtenKeys, req, Json.toList,
    toNatBelow_num hid, hmap, Terminator.ofJson_toJson hterm]

theorem escapeChar_plain {c : Char} (h1 : c ≠ '"') (h2 : c ≠ '\\') (h3 : 32 ≤ c.toNat) :
    escapeChar c = String.singleton c := by
  have h4 : c ≠ '\n' := by rintro rfl; simp at h3
  have h5 : c ≠ '\r' := by rintro rfl; simp at h3
  have h6 : c ≠ '\t' := by rintro rfl; simp at h3
  simp [escapeChar, h1, h2, h4, h5, h6, show c.toNat ≠ 8 by omega, show c.toNat ≠ 12 by omega,
    show ¬ c.toNat < 32 by omega]

theorem escaped_eq_self {s : String} (h : ∀ c ∈ s.toList, escapeChar c = String.singleton c) :
    escaped s = s := by
  rw [← String.toList_inj, escaped_toList]
  generalize s.toList = cs at h
  induction cs with
  | nil => rfl
  | cons c cs ih =>
    simp only [List.flatMap_cons, h c List.mem_cons_self, String.toList_singleton, List.singleton_append,
      ih fun d hd => h d (List.mem_cons_of_mem c hd)]

theorem escaped_repr (n : Nat) : escaped n.repr = n.repr := by
  apply escaped_eq_self
  intro c hc
  simp only [Nat.toList_repr] at hc
  have hd := Char.isDigit_iff_toNat.mp (Nat.isDigit_of_mem_toDigits (by decide) (by decide) hc)
  simp only [Char.reduceToNat] at hd
  exact escapeChar_plain (by rintro rfl; simp at hd) (by rintro rfl; simp at hd) (by omega)

theorem keyIndex_repr {k : Nat} (h : k < Nat.pow 2 32) : keyIndex k.repr = .ok k := by
  have hdig : (Nat.toDigits 10 k).all Char.isDigit = true :=
    List.all_eq_true.mpr fun c hc => Nat.isDigit_of_mem_toDigits (by decide) (by decide) hc
  have hcan := toDigits_canonical k
  have hval : (Nat.toDigits 10 k).foldl (fun acc d => acc * 10 + (d.toNat - 48)) 0 = k := by
    rw [show (Nat.toDigits 10 k).foldl (fun acc d => acc * 10 + (d.toNat - 48)) 0 =
      digitsValue (Nat.toDigits 10 k) from rfl, digitsValue_eq, Nat.ofDigitChars_ten_toDigits]
  simp only [keyIndex, Nat.toList_repr, hdig, hval, h]
  simp [Nat.toDigits_ne_nil, hcan]

theorem keyedOfJson_eq_ok {α : Type} (f : Json → Except String α) (m : OrderedMap Nat α)
    (g : Nat × α → String × Json) (hkeys : m.keys.Nodup)
    (hg : ∀ e ∈ m.toList, keyIndex (g e).1 = .ok e.1 ∧ f (g e).2 = .ok e.2) :
    keyedOfJson f (.obj (m.toList.map g)) = .ok m := by
  simp only [keyedOfJson, members, ok_bind]
  refine OrderedMap.foldlM_insert_toList _ g m hkeys fun e he m => ?_
  obtain ⟨hk, hv⟩ := hg e he
  generalize g e = p at hk hv
  obtain ⟨k, v⟩ := p
  simp [hk, hv]

/-- Every type, block and id of the function fits its field, and its block ids are distinct. -/
def Function.inRange (f : Function) : Bool :=
  f.sig.params.all (·.ty.inRange) && f.sig.returns.all Ty.inRange && f.body.entry < Nat.pow 2 32 &&
    f.body.nextId < Nat.pow 2 32 && f.body.blocks.toList.all (fun e => e.1 < Nat.pow 2 32 && e.2.inRange) &&
    f.body.blocks.keys.Nodup

section Depth

variable {f : Function}

theorem Function.depth_param {p : Param} (hp : p ∈ f.sig.params) : p.ty.toJson.depth + 4 ≤ f.toJson.depth :=
  calc p.ty.toJson.depth + 4
      ≤ (Json.obj [("name", .str p.name), ("param_type", p.ty.toJson)]).depth + 3 :=
        depth_add_lt (depth_lt_obj (k := "param_type") (by simp))
    _ ≤ (Json.arr (f.sig.params.map fun p => .obj [("name", .str p.name), ("param_type", p.ty.toJson)])).depth
          + 2 :=
        depth_add_lt (depth_lt_arr (List.mem_map_of_mem hp))
    _ ≤ (Json.obj [("name", .str f.sig.name), ("params", .arr (f.sig.params.map fun p =>
          .obj [("name", .str p.name), ("param_type", p.ty.toJson)])),
          ("returns", .arr (f.sig.returns.map Ty.toJson))]).depth + 1 :=
        depth_add_lt (depth_lt_obj (k := "params") (by simp))
    _ ≤ f.toJson.depth := depth_lt_obj (k := "signature") (by simp)

theorem Function.depth_return {t : Ty} (ht : t ∈ f.sig.returns) : t.toJson.depth + 3 ≤ f.toJson.depth :=
  calc t.toJson.depth + 3
      ≤ (Json.arr (f.sig.returns.map Ty.toJson)).depth + 2 := depth_add_lt (depth_lt_arr (List.mem_map_of_mem ht))
    _ ≤ (Json.obj [("name", .str f.sig.name), ("params", .arr (f.sig.params.map fun p =>
          .obj [("name", .str p.name), ("param_type", p.ty.toJson)])),
          ("returns", .arr (f.sig.returns.map Ty.toJson))]).depth + 1 :=
        depth_add_lt (depth_lt_obj (k := "returns") (by simp))
    _ ≤ f.toJson.depth := depth_lt_obj (k := "signature") (by simp)

theorem Function.depth_block {e : Nat × Block} (he : e ∈ f.body.blocks.toList) :
    e.2.toJson.depth + 3 ≤ f.toJson.depth :=
  calc e.2.toJson.depth + 3
      ≤ (Json.obj (f.body.blocks.toList.map fun e => (toString e.1, e.2.toJson))).depth + 2 :=
        depth_add_lt (depth_lt_obj (List.mem_map_of_mem he))
    _ ≤ (Json.obj [("entry_block", .num f.body.entry),
          ("blocks", .obj (f.body.blocks.toList.map fun e => (toString e.1, e.2.toJson))),
          ("next_block_id", .num f.body.nextId)]).depth + 1 :=
        depth_add_lt (depth_lt_obj (k := "blocks") (by simp))
    _ ≤ f.toJson.depth := depth_lt_obj (k := "body") (by simp)

end Depth

theorem Function.ofJson_toJson {f : Function} (hf : f.inRange) {room : Nat} (hroom : f.toJson.depth ≤ room) :
    Function.ofJson room (asWritten f.toJson) = .ok f := by
  have hparamDepth : ∀ p ∈ f.sig.params, p.ty.toJson.depth ≤ room - 4 := fun p hp => by
    have := Function.depth_param hp; omega
  have hreturnDepth : ∀ t ∈ f.sig.returns, t.toJson.depth ≤ room - 3 := fun t ht => by
    have := Function.depth_return ht; omega
  have hblockDepth : ∀ e ∈ f.body.blocks.toList, e.2.toJson.depth ≤ room - 3 := fun e he => by
    have := Function.depth_block he; omega
  obtain ⟨⟨name, params, returns⟩, vis, muta, ⟨entry, blocks, nextId⟩, ⟨c1, c2, c3, c4, c5, src, dfn⟩⟩ := f
  simp only [Function.inRange, Bool.and_eq_true, decide_eq_true_eq, List.all_eq_true] at hf
  obtain ⟨⟨⟨⟨⟨hparams, hrets⟩, hentry⟩, hnext⟩, hblocks⟩, hnodup⟩ := hf
  simp [Function.ofJson, Function.toJson, asWritten, fieldsOf, writtenFields, writtenKeys, req, Json.toList]
  rw [mapM_eq_ok_self (l := params) ?params, mapM_eq_ok_self (l := returns) ?returns,
    keyedOfJson_eq_ok _ blocks _ hnodup ?blocks]
  · have he : entry < 4294967296 := hentry
    have hn : nextId < 4294967296 := hnext
    cases src <;> cases dfn <;>
      simp [ok_bind, writtenNamed_escaped, Visibility.ofName?_variantName, Mutability.ofName?_variantName,
        toNatBelow_num he, toNatBelow_num hn, Json.toBool, opt, optStr, asWritten]
  case params =>
    intro p hp
    simp [asWritten, Ty.ofJson_toJson (hparams p hp) (hparamDepth p hp)]
  case returns =>
    intro t ht
    exact Ty.ofJson_toJson (hrets t ht) (hreturnDepth t ht)
  case blocks =>
    intro e he
    obtain ⟨hk, hb⟩ := hblocks e he
    exact ⟨by simpa [escaped_repr] using keyIndex_repr hk, Block.ofJson_toJson hb (hblockDepth e he)⟩

end ContractCfg.IR
