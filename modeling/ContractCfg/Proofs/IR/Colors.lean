import ContractCfg.IR.Text

/-!
Colored text is plain text with escape codes. The text of a contract is a list of lines, each at
an indentation depth and with a tint: contract and function headers, block labels, the storage
comment and reverting terminators are tinted, every other line is plain. Written with colors, a
tinted line is its indentation, the tint's code, its text and the reset code; without colors it
is its indentation and its text. So, as long as the plain text holds no escape character,
deleting every select-graphic-rendition code (`ESC [`, digits and semicolons, `m`) from the
colored text gives the plain text.
-/

namespace ContractCfg.IR

/-- The characters that may stand between `ESC [` and the closing `m` of a code. -/
def sgrParam (c : Char) : Bool := c.isDigit || c == ';'

/-- What follows a code whose parameters start the text: the text after its closing `m`. -/
def sgrRest : List Char → Option (List Char)
  | [] => none
  | c :: rest => if c = 'm' then some rest else if sgrParam c then sgrRest rest else none

theorem sgrRest_length {cs rest : List Char} (h : sgrRest cs = some rest) :
    rest.length < cs.length := by
  induction cs with
  | nil => simp [sgrRest] at h
  | cons c cs ih =>
    simp only [sgrRest] at h
    split at h
    · cases h; simp
    · split at h
      · have := ih h; simp; omega
      · cases h

/-- The text with every select-graphic-rendition code deleted, read from the left. -/
def stripSgr : List Char → List Char
  | '\x1b' :: '[' :: rest =>
    match h : sgrRest rest with
    | some after =>
      have := sgrRest_length h
      stripSgr after
    | none => '\x1b' :: stripSgr ('[' :: rest)
  | c :: rest => c :: stripSgr rest
  | [] => []
termination_by cs => cs.length

theorem stripSgr_cons {c : Char} (hc : c ≠ '\x1b') (rest : List Char) :
    stripSgr (c :: rest) = c :: stripSgr rest :=
  stripSgr.eq_2 c rest fun _ h _ => hc h

theorem stripSgr_code {params : List Char} (hp : params.all sgrParam = true)
    (rest : List Char) : stripSgr ('\x1b' :: '[' :: (params ++ 'm' :: rest)) = stripSgr rest := by
  have hcode : sgrRest (params ++ 'm' :: rest) = some rest := by
    induction params with
    | nil => simp [sgrRest]
    | cons c params ih =>
      rw [List.all_cons, Bool.and_eq_true] at hp
      have hc : c ≠ 'm' := fun h => by simp [h, sgrParam] at hp
      simp [sgrRest, hc, hp.1, ih hp.2]
  rw [stripSgr.eq_1]
  split
  · rename_i after h
    rw [hcode] at h
    cases h
    rfl
  · rename_i h
    rw [hcode] at h
    cases h

/-- Deleting the codes of `x` gives `y`, whatever text follows `x`. -/
def StripsTo (x y : List Char) : Prop := ∀ z, stripSgr (x ++ z) = y ++ stripSgr z

theorem StripsTo.strip {x y : List Char} (h : StripsTo x y) : stripSgr x = y := by
  simpa [stripSgr] using h []

theorem StripsTo.append {x y x' y' : List Char} (h : StripsTo x y) (h' : StripsTo x' y') :
    StripsTo (x ++ x') (y ++ y') := fun z => by
  rw [List.append_assoc, h, h', List.append_assoc]

theorem stripsTo_self {x : List Char} (hx : '\x1b' ∉ x) : StripsTo x x := fun z => by
  induction x with
  | nil => rfl
  | cons c x ih =>
    have hc : c ≠ '\x1b' := fun h => hx (h ▸ List.mem_cons_self ..)
    rw [List.cons_append, stripSgr_cons hc, ih fun h => hx (List.mem_cons_of_mem _ h),
      List.cons_append]

theorem stripsTo_code {params : List Char} (hp : params.all sgrParam = true) :
    StripsTo ('\x1b' :: '[' :: (params ++ ['m'])) [] := fun z => by
  simp [stripSgr_code hp]

theorem stripsTo_flatMap {α : Type} {f g : α → List Char} {l : List α}
    (h : ∀ a ∈ l, StripsTo (f a) (g a)) : StripsTo (l.flatMap f) (l.flatMap g) := by
  induction l with
  | nil => exact fun z => rfl
  | cons a l ih =>
    simp only [List.flatMap_cons]
    exact (h a (List.mem_cons_self ..)).append (ih fun a ha => h a (List.mem_cons_of_mem _ ha))

/-- The code that ends a tinted line; a plain line has none. -/
def Tint.reset : Tint → String
  | .plain => ""
  | _ => "\x1b[0m"

theorem Tint.code_strips (t : Tint) : StripsTo t.code.toList [] := by
  cases t
  · exact fun z => rfl
  · show StripsTo ('\x1b' :: '[' :: (['1', ';', '9', '4'] ++ ['m'])) []
    exact stripsTo_code (by decide)
  · show StripsTo ('\x1b' :: '[' :: (['3', '3'] ++ ['m'])) []
    exact stripsTo_code (by decide)
  · show StripsTo ('\x1b' :: '[' :: (['3', '2'] ++ ['m'])) []
    exact stripsTo_code (by decide)
  · show StripsTo ('\x1b' :: '[' :: (['3', '1'] ++ ['m'])) []
    exact stripsTo_code (by decide)

theorem Tint.reset_strips (t : Tint) : StripsTo t.reset.toList [] := by
  cases t
  · exact fun z => rfl
  all_goals
    show StripsTo ('\x1b' :: '[' :: (['0'] ++ ['m'])) []
    exact stripsTo_code (by decide)

theorem reapplyAfterResets_of_escapeFree (code : List Char) {s : List Char} (hs : '\x1b' ∉ s) :
    reapplyAfterResets code s = s := by
  induction s with
  | nil => rfl
  | cons c s ih =>
    have hc : c ≠ '\x1b' := fun h => hs (h ▸ List.mem_cons_self ..)
    rw [reapplyAfterResets.eq_2 code c s fun _ h _ => hc h, ih fun h => hs (List.mem_cons_of_mem _ h)]

theorem Tint.wrap_of_escapeFree (t : Tint) {s : String} (hs : '\x1b' ∉ s.toList) :
    t.wrap s = t.code ++ s ++ t.reset := by
  cases t
  · simp [Tint.wrap, Tint.code, Tint.reset]
  all_goals
    simp only [Tint.wrap, Tint.reset, reapplyAfterResets_of_escapeFree _ hs, String.ofList_toList]

/-- A line of text: its indentation depth, its tint and what it says. -/
structure Line where
  depth : Nat
  tint : Tint
  text : String

namespace TextStyle

/-- The lines of a block: its label, its instructions one level deeper, then its terminator,
tinted when it reverts. -/
def blockLines (st : TextStyle) (reg : TypeRegistry) (depth : Nat) (b : Block) : List Line :=
  ⟨depth, .label, blockName b.id ++ " (" ++ b.label ++ "):"⟩ ::
    (b.instrs.toList.map fun i => ⟨depth + 1, .plain, st.instrText reg i⟩) ++
    [⟨depth + 1, if b.term.isRevert then .exit else .plain, b.term.text⟩]

/-- The lines of a function: its header, its blocks one level deeper, and the closing brace. -/
def functionLines (st : TextStyle) (reg : TypeRegistry) (depth : Nat) (f : Function) : List Line :=
  ⟨depth, .header, st.functionHeader reg f ++ " \x7b"⟩ ::
    f.body.blocks.values.flatMap (st.blockLines reg (depth + 1)) ++ [⟨depth, .plain, "\x7d"⟩]

/-- The storage table, when it is shown and not empty: a comment, then a line per slot. -/
def storageLines (st : TextStyle) (c : Contract) : List Line :=
  if st.showStorageLayout && !c.storage.isEmpty then
    ⟨1, .comment, "// storage"⟩ :: c.storage.map fun s =>
      ⟨1, .plain, "slot " ++ toString s.slot ++ ": " ++ s.name ++ " " ++ c.types.typeText s.ty⟩
  else []

/-- The lines of a contract's text: its header, the storage table, each function after a blank
line, and the closing brace. -/
def layout (st : TextStyle) (c : Contract) : List Line :=
  ⟨0, .header, "contract " ++ c.name ++ " \x7b"⟩ :: st.storageLines c ++
    c.functions.values.flatMap (fun f => ⟨0, .plain, ""⟩ :: st.functionLines c.types 1 f) ++
    [⟨0, .plain, "\x7d"⟩]

/-- A line as written. -/
def lineOf (st : TextStyle) (l : Line) : String := st.line l.depth l.tint l.text

theorem blockText_eq (st : TextStyle) (reg : TypeRegistry) (depth : Nat) (b : Block) :
    st.blockText reg depth b = String.join ((st.blockLines reg depth b).map st.lineOf) := by
  simp [blockText, blockLines, lineOf, String.join_cons, String.join_append, Function.comp_def,
    String.append_assoc]

theorem join_map_flatMap {α : Type} (g : α → List Line) (f : Line → String) (l : List α) :
    String.join ((l.flatMap g).map f) = String.join (l.map fun a => String.join ((g a).map f)) := by
  induction l with
  | nil => rfl
  | cons a l ih => simp [String.join_cons, String.join_append, ih]

theorem functionText_eq (st : TextStyle) (reg : TypeRegistry) (depth : Nat) (f : Function) :
    st.functionText reg depth f = String.join ((st.functionLines reg depth f).map st.lineOf) := by
  simp only [functionText, functionLines, List.map_cons, List.map_append, String.join_cons,
    String.join_append, join_map_flatMap, ← blockText_eq, String.append_assoc]
  simp [lineOf, String.join_nil]

theorem line_blank (st : TextStyle) : st.line 0 .plain "" = "\n" := by
  simp [line, Tint.wrap]

theorem render_eq_layout (st : TextStyle) (c : Contract) :
    render st c = String.join ((st.layout c).map st.lineOf) := by
  simp only [render, layout, storageLines, List.map_cons, List.map_append, String.join_cons,
    String.join_append, join_map_flatMap, ← functionText_eq, String.append_assoc]
  split
  · simp [lineOf, line_blank, String.join_cons, Function.comp_def, String.append_assoc]
  · simp [lineOf, line_blank]

theorem layout_useColors (st : TextStyle) (b : Bool) (c : Contract) :
    ({ st with useColors := b } : TextStyle).layout c = st.layout c := rfl

theorem lineOf_plain (st : TextStyle) (l : Line) :
    ({ st with useColors := false } : TextStyle).lineOf l =
      String.ofList (List.replicate (st.indentWidth * l.depth) ' ') ++ l.text ++ "\n" := by
  simp [lineOf, line]

theorem lineOf_colored (st : TextStyle) {l : Line} (hl : '\x1b' ∉ l.text.toList) :
    ({ st with useColors := true } : TextStyle).lineOf l =
      String.ofList (List.replicate (st.indentWidth * l.depth) ' ') ++ l.tint.code ++ l.text ++
        l.tint.reset ++ "\n" := by
  simp [lineOf, line, Tint.wrap_of_escapeFree _ hl, String.append_assoc]

theorem lineOf_strips (st : TextStyle) {l : Line} (hl : '\x1b' ∉ l.text.toList) :
    StripsTo (({ st with useColors := true } : TextStyle).lineOf l).toList
      (({ st with useColors := false } : TextStyle).lineOf l).toList := by
  have hspaces : '\x1b' ∉ List.replicate (st.indentWidth * l.depth) ' ' := by simp
  rw [lineOf_colored st hl, lineOf_plain]
  simp only [String.toList_append, String.toList_ofList]
  have h := (((stripsTo_self hspaces).append l.tint.code_strips).append (stripsTo_self hl)).append
    l.tint.reset_strips
  simpa [List.append_assoc] using h.append (stripsTo_self (x := ['\n']) (by decide))

end TextStyle

/-- Colored text is plain text with escape codes. The text of a contract is the lines of its
layout, and a line is tinted exactly when it is a contract or function header, a block label,
the storage comment or a reverting terminator. With colors, a tinted line is its indentation,
the tint's code, its text and the reset code; without colors it is its indentation and its
text. When the plain text has no escape character, deleting every code from the colored text
gives the plain text. -/
theorem colored_text_strips_to_plain (st : TextStyle) (c : Contract)
    (h : '\x1b' ∉ (TextStyle.render { st with useColors := false } c).toList) :
    stripSgr (TextStyle.render { st with useColors := true } c).toList =
      (TextStyle.render { st with useColors := false } c).toList ∧
    TextStyle.render { st with useColors := true } c = String.join ((st.layout c).map fun l =>
      String.ofList (List.replicate (st.indentWidth * l.depth) ' ') ++ l.tint.code ++ l.text ++
        l.tint.reset ++ "\n") ∧
    TextStyle.render { st with useColors := false } c = String.join ((st.layout c).map fun l =>
      String.ofList (List.replicate (st.indentWidth * l.depth) ' ') ++ l.text ++ "\n") := by
  have hplain := TextStyle.render_eq_layout { st with useColors := false } c
  have hcolored := TextStyle.render_eq_layout { st with useColors := true } c
  rw [TextStyle.layout_useColors] at hplain hcolored
  -- every line's text stands in the plain text, so none holds an escape character
  have htexts : ∀ l ∈ st.layout c, '\x1b' ∉ l.text.toList := fun l hl ht => h (by
    rw [hplain, String.toList_join]
    refine List.mem_flatMap.mpr ⟨_, List.mem_map_of_mem hl, ?_⟩
    simp [TextStyle.lineOf_plain, ht])
  refine ⟨?_, ?_, ?_⟩
  · rw [hplain, hcolored, String.toList_join, String.toList_join, List.flatMap_map, List.flatMap_map]
    exact (stripsTo_flatMap fun l hl => TextStyle.lineOf_strips st (htexts l hl)).strip
  · rw [hcolored]
    exact congrArg String.join (List.map_congr_left fun l hl => TextStyle.lineOf_colored st (htexts l hl))
  · rw [hplain]
    exact congrArg String.join (List.map_congr_left fun l _ => TextStyle.lineOf_plain st l)

/-- A contract whose text uses every tint: a storage slot, and a function whose entry block
reverts. -/
def revertingVault : Contract where
  name := "Vault"
  storage := [⟨0, 1, .uint 256, "total"⟩]
  functions := ⟨#[("f",
    { sig := { name := "f" }
      body := { blocks := ⟨#[(0, { id := 0, label := "entry", term := .abort })]⟩ } })]⟩

theorem revertingVault_colored_text_strips :
    '\x1b' ∉ (TextStyle.render { TextStyle.colored with useColors := false } revertingVault).toList ∧
    stripSgr (TextStyle.render { TextStyle.colored with useColors := true } revertingVault).toList =
      (TextStyle.render { TextStyle.colored with useColors := false } revertingVault).toList := by
  have h : '\x1b' ∉ (TextStyle.render { TextStyle.colored with useColors := false } revertingVault).toList := by
    decide +kernel
  exact ⟨h, (colored_text_strips_to_plain TextStyle.colored revertingVault h).1⟩

end ContractCfg.IR
