import ContractCfg.Proofs.IR.Decode

/-!
Saving and loading contracts. A contract is saved as the indented text of its JSON form and
loaded by parsing that text and decoding the document. The two halves meet at `Writable`
documents: the parser reads every writable document back as written (`parseWritten_pretty`),
and the JSON form of a contract whose numbers fit their fields is writable. Decoding gives the
contract back when the keys of its maps are distinct and its saved form nests no deeper than the
reader's limit of 127 arrays and objects, so loading what was saved gives the same contract: its
functions, blocks and structs in the same order, the same next block ids and so the same
fingerprint. A storage type nested deeper than that limit leaves it room for is refused, and the
contract holding it is saved but does not load.
-/

namespace ContractCfg.IR

open ContractCfg.Json

attribute [local simp] ok_bind pure_eq_ok map_ok error_bind throw_eq_error

/-- Every function, slot and struct of the contract is in range, and the names of its functions
and the ids of its structs are distinct. -/
def Contract.inRange (c : Contract) : Bool :=
  c.functions.values.all Function.inRange && c.functions.keys.Nodup &&
    c.storage.all (fun s => s.slot < Nat.pow 2 64 && s.size < Nat.pow 2 64 && s.ty.inRange) &&
    c.types.structs.toList.all (fun e => e.1 < Nat.pow 2 32 && e.2.fields.all (·.2.inRange)) &&
    c.types.structs.keys.Nodup

section Depth

variable {c : Contract}

theorem Contract.depth_function {e : String × Function} (he : e ∈ c.functions.toList) :
    e.2.toJson.depth + 2 ≤ c.toJson.depth :=
  calc e.2.toJson.depth + 2
      ≤ (Json.obj (c.functions.toList.map fun e => (e.1, e.2.toJson))).depth + 1 :=
        depth_add_lt (depth_lt_obj (List.mem_map_of_mem he))
    _ ≤ c.toJson.depth := depth_lt_obj (k := "functions") (by simp)

theorem Contract.depth_slot {s : Slot} (hs : s ∈ c.storage) : s.ty.toJson.depth + 4 ≤ c.toJson.depth :=
  calc s.ty.toJson.depth + 4
      ≤ (Json.obj [("slot", .num s.slot), ("size", .num s.size), ("var_type", s.ty.toJson),
          ("name", .str s.name)]).depth + 3 := depth_add_lt (depth_lt_obj (k := "var_type") (by simp))
    _ ≤ (Json.arr (c.storage.map fun s => .obj [("slot", .num s.slot), ("size", .num s.size),
          ("var_type", s.ty.toJson), ("name", .str s.name)])).depth + 2 :=
        depth_add_lt (depth_lt_arr (List.mem_map_of_mem hs))
    _ ≤ (Json.obj [("slots", .arr (c.storage.map fun s => .obj [("slot", .num s.slot), ("size", .num s.size),
          ("var_type", s.ty.toJson), ("name", .str s.name)]))]).depth + 1 :=
        depth_add_lt (depth_lt_obj (k := "slots") (by simp))
    _ ≤ c.toJson.depth := depth_lt_obj (k := "storage_layout") (by simp)

theorem Contract.depth_field {e : Nat × StructDef} (he : e ∈ c.types.structs.toList) {f : String × Ty}
    (hf : f ∈ e.2.fields) : f.2.toJson.depth + 6 ≤ c.toJson.depth :=
  calc f.2.toJson.depth + 6
      ≤ (Json.obj [("name", .str f.1), ("field_type", f.2.toJson)]).depth + 5 :=
        depth_add_lt (depth_lt_obj (k := "field_type") (by simp))
    _ ≤ (Json.arr (e.2.fields.map fun f => .obj [("name", .str f.1), ("field_type", f.2.toJson)])).depth + 4 :=
        depth_add_lt (depth_lt_arr (List.mem_map_of_mem hf))
    _ ≤ (Json.obj [("name", .str e.2.name), ("fields", .arr (e.2.fields.map fun f =>
          .obj [("name", .str f.1), ("field_type", f.2.toJson)]))]).depth + 3 :=
        depth_add_lt (depth_lt_obj (k := "fields") (by simp))
    _ ≤ (Json.obj (c.types.structs.toList.map fun e => (toString e.1, .obj [("name", .str e.2.name),
          ("fields", .arr (e.2.fields.map fun f => .obj [("name", .str f.1), ("field_type", f.2.toJson)]))]))).depth + 2 :=
        depth_add_lt (depth_lt_obj (List.mem_map_of_mem he))
    _ ≤ (Json.obj [("structs", .obj (c.types.structs.toList.map fun e => (toString e.1,
          .obj [("name", .str e.2.name), ("fields", .arr (e.2.fields.map fun f =>
            .obj [("name", .str f.1), ("field_type", f.2.toJson)]))])))]).depth + 1 :=
        depth_add_lt (depth_lt_obj (k := "structs") (by simp))
    _ ≤ c.toJson.depth := depth_lt_obj (k := "types") (by simp)

end Depth

theorem Contract.ofJson_toJson {c : Contract} (hc : c.inRange) (hdepth : c.toJson.depth ≤ loadDepthLimit) :
    Contract.ofJson (asWritten c.toJson) = .ok c := by
  have hfunDepth : ∀ e ∈ c.functions.toList, e.2.toJson.depth ≤ loadDepthLimit - 2 := fun e he => by
    have := Contract.depth_function he; omega
  have hslotDepth : ∀ s ∈ c.storage, s.ty.toJson.depth ≤ loadDepthLimit - 4 := fun s hs => by
    have := Contract.depth_slot hs; omega
  have hfieldDepth : ∀ e ∈ c.types.structs.toList, ∀ f ∈ e.2.fields, f.2.toJson.depth ≤ loadDepthLimit - 6 :=
    fun e he f hf => by have := Contract.depth_field he hf; omega
  obtain ⟨name, functions, storage, ⟨structs⟩, deps, ⟨lin, abs, ext, sd⟩⟩ := c
  simp only [Contract.inRange, Bool.and_eq_true, decide_eq_true_eq, List.all_eq_true] at hc
  obtain ⟨⟨⟨⟨hfuns, hnames⟩, hslots⟩, hstructs⟩, hids⟩ := hc
  simp [Contract.ofJson, Contract.toJson, asWritten, fieldsOf, writtenFields, writtenKeys, req, Json.toList, members]
  rw [mapM_eq_ok_map (l := functions.toList) (g := fun e => (e.1, asWritten e.2.toJson)) (by simp),
    ok_bind, OrderedMap.foldlM_insert_toList _ _ functions hnames ?funs, ok_bind,
    mapM_eq_ok_self (l := storage) ?slots, ok_bind, keyedOfJson_eq_ok _ structs _ hids ?structs, ok_bind]
  · simp [Json.strs, asWritten, List.mapM_map, mapM_eq_ok_self, Json.toBool]
  case funs =>
    intro e he m
    have hf : e.2.inRange := hfuns e.2 (List.mem_map_of_mem he)
    simp [Function.ofJson_toJson hf (hfunDepth e he)]
  case slots =>
    rintro ⟨slot, size, ty, sname⟩ hs
    obtain ⟨⟨hslot, hsize⟩, hty⟩ := hslots _ hs
    have hslot' : slot < 18446744073709551616 := hslot
    have hsize' : size < 18446744073709551616 := hsize
    simp [asWritten, toNatBelow_num hslot', toNatBelow_num hsize', Ty.ofJson_toJson hty (hslotDepth _ hs)]
  case structs =>
    intro e he
    obtain ⟨hk, hfields⟩ := hstructs e he
    refine ⟨by simpa [escaped_repr] using keyIndex_repr hk, ?_⟩
    simp [asWritten]
    rw [mapM_eq_ok_self (l := e.2.fields) ?fields, ok_bind]
    rintro ⟨fname, t⟩ hf
    simp [asWritten, Ty.ofJson_toJson (hfields _ hf) (hfieldDepth e he _ hf)]

@[simp] theorem writable_optStr (o : Option String) : Writable (optStr o) := by
  cases o <;> simp [optStr]

theorem Ty.writable_toJson {t : Ty} (ht : t.inRange) : Writable t.toJson := by
  induction t with
  | array e len ih =>
    simp only [Ty.inRange, Bool.and_eq_true] at ht
    cases len <;> simp_all [Ty.toJson]
  | mapping k v ihk ihv =>
    simp only [Ty.inRange, Bool.and_eq_true] at ht
    simp_all [Ty.toJson]
  | _ => simp_all [Ty.toJson, Ty.inRange] <;> omega

theorem writable_ofBig (n : Int) : Writable (ofBig n) := by
  have hsign : fitsWord (if n < 0 then -1 else if n = 0 then 0 else 1) = true := by
    split
    · decide
    · split <;> decide
  refine Writable.arr _ ?_
  simp only [List.mem_cons, List.not_mem_nil, or_false]
  rintro x (rfl | rfl)
  · exact Writable.num _ hsign
  · simp only [Writable.arr_iff, List.mem_map]
    rintro _ ⟨d, hd, rfl⟩
    have : d < 4294967296 := (limbs_spec n.natAbs).1 d hd
    simp only [Int.ofNat_eq_natCast, Writable.num_iff, fitsWord_natCast]
    omega

@[simp] theorem Value.writable_toJson (v : Value) : Writable v.toJson := by
  rcases v with r | b | n <;> simp [Value.toJson, writable_ofBig]

theorem Instr.writable_toJson {i : Instr} (hi : i.inRange) : Writable i.toJson := by
  cases i <;> simp_all [Instr.toJson, Instr.inRange, valuesToJson, Ty.writable_toJson] <;> omega

theorem Terminator.writable_toJson {t : Terminator} (ht : t.inRange) : Writable t.toJson := by
  cases t <;> simp_all [Terminator.toJson, Terminator.inRange, valuesToJson] <;> omega

theorem Block.writable_toJson {b : Block} (hb : b.inRange) : Writable b.toJson := by
  simp only [Block.inRange, Bool.and_eq_true, decide_eq_true_eq, Array.all_eq_true_iff_forall_mem] at hb
  obtain ⟨⟨hid, hinstrs⟩, hterm⟩ := hb
  have hid' : b.id < 4294967296 := hid
  simp only [Block.toJson, Writable.obj_iff, List.mem_cons, List.not_mem_nil, or_false]
  rintro m (rfl | rfl | rfl | rfl)
  · simp; omega
  · simp
  · simpa using fun i hi => Instr.writable_toJson (hinstrs i hi)
  · exact Terminator.writable_toJson hterm

theorem Function.writable_toJson {f : Function} (hf : f.inRange) : Writable f.toJson := by
  simp only [Function.inRange, Bool.and_eq_true, decide_eq_true_eq, List.all_eq_true] at hf
  obtain ⟨⟨⟨⟨⟨hparams, hrets⟩, hentry⟩, hnext⟩, hblocks⟩, -⟩ := hf
  have he : f.body.entry < 4294967296 := hentry
  have hn : f.body.nextId < 4294967296 := hnext
  simp only [Function.toJson, Writable.obj_iff, Writable.arr_iff, List.mem_cons, List.not_mem_nil, or_false,
    List.forall_mem_map, forall_eq_or_imp, forall_eq]
  simp
  exact ⟨⟨fun p hp => Ty.writable_toJson (hparams p hp), fun t ht => Ty.writable_toJson (hrets t ht)⟩, by omega,
    fun k b hkb => Block.writable_toJson (hblocks (k, b) hkb).2, by omega⟩

theorem Contract.writable_toJson {c : Contract} (hc : c.inRange) : Writable c.toJson := by
  obtain ⟨name, functions, storage, ⟨structs⟩, deps, ⟨lin, abs, ext, sd⟩⟩ := c
  simp only [Contract.inRange, Bool.and_eq_true, decide_eq_true_eq, List.all_eq_true] at hc
  obtain ⟨⟨⟨⟨hfuns, hnames⟩, hslots⟩, hstructs⟩, hids⟩ := hc
  have hf : ∀ e ∈ functions.toList, Writable e.2.toJson := fun e he =>
    Function.writable_toJson (hfuns e.2 (List.mem_map_of_mem he))
  simp only [Contract.toJson, Writable.obj_iff, Writable.arr_iff, List.mem_cons, List.not_mem_nil, or_false,
    List.forall_mem_map, forall_eq_or_imp, forall_eq]
  simp [Json.strs]
  refine ⟨fun k f hkf => hf (k, f) hkf, fun s hs => ?_, fun k d hkd n t hnt => ?_⟩
  · obtain ⟨⟨hslot, hsize⟩, hty⟩ := hslots s hs
    have hslot' : s.slot < 18446744073709551616 := hslot
    have hsize' : s.size < 18446744073709551616 := hsize
    exact ⟨hslot', hsize', Ty.writable_toJson hty⟩
  · exact Ty.writable_toJson ((hstructs (k, d) hkd).2 (n, t) hnt)

theorem Contract.load_save {c : Contract} (hc : c.inRange) (hdepth : c.toJson.depth ≤ loadDepthLimit) :
    Contract.load c.save = .ok c := by
  rw [Contract.load, Contract.save, parseWritten_pretty (Contract.writable_toJson hc), ok_bind]
  exact Contract.ofJson_toJson hc hdepth

/-- A contract with a mapping in storage, a struct and one function that reads the mapping and
returns what it read. -/
def ledgerContract : Contract where
  name := "Ledger"
  storage := [⟨0, 1, .mapping .address (.uint 256), "balances"⟩]
  types := ⟨⟨#[(0, { name := "Entry", fields := [("who", .address), ("amount", .uint 256)] })]⟩⟩
  functions := ⟨#[("balance",
    { sig := { name := "balance", params := [⟨"who", .address⟩], returns := [.uint 256] }
      visibility := .pub
      mutability := .view
      body :=
        { blocks := ⟨#[(0,
            { id := 0
              label := "entry"
              instrs := #[.mappingSlot (.reg "s") (.reg "who") (.reg "who"), .storageLoad (.reg "b") (.reg "s")]
              term := .ret [.reg "b"] })]⟩
          nextId := 1 } })]⟩

theorem ledgerContract_load_save :
    ledgerContract.inRange ∧ ledgerContract.toJson.depth ≤ loadDepthLimit ∧
      Contract.load ledgerContract.save = .ok ledgerContract :=
  ⟨by decide +kernel, by decide, Contract.load_save (by decide +kernel) (by decide)⟩

theorem Ty.depth_repeat_array (n : Nat) (t : Ty) :
    (Nat.repeat (fun t => Ty.array t none) n t).toJson.depth = 2 * n + t.toJson.depth := by
  induction n with
  | zero => simp [Nat.repeat]
  | succ n ih =>
    simp [Nat.repeat, Ty.toJson, Json.depth, Json.itemsDepth, Json.membersDepth, ih]
    omega

/-- `bool[]` taken 62 times: its saved form nests 124 arrays and objects. -/
def deepArrayTy : Ty := Nat.repeat (fun t => Ty.array t none) 62 .bool

/-- A contract with one storage variable of type `deepArrayTy`. -/
def deepSlotContract : Contract := { name := "T", storage := [⟨0, 1, deepArrayTy, "s"⟩] }

theorem deepSlotContract_not_loaded : ∃ e, Contract.load deepSlotContract.save = .error e := by
  have hw : Writable deepSlotContract.toJson := Contract.writable_toJson (by decide)
  obtain ⟨e, he⟩ := @Ty.ofJson_toJson_of_lt deepArrayTy (loadDepthLimit - 4)
    (by rw [deepArrayTy, Ty.depth_repeat_array]; decide)
  refine ⟨e, ?_⟩
  rw [Contract.load, Contract.save, parseWritten_pretty hw, ok_bind]
  simp [deepSlotContract, Contract.ofJson, Contract.toJson, asWritten, fieldsOf, writtenFields, writtenKeys, req,
    Json.toList, members, he, OrderedMap.toList, toNatBelow, Json.toNat]

end ContractCfg.IR
