import RegMap.Proofs.Group.Links
import RegMap.Proofs.Group.Mask

/-!
Groups with the same text. The names of their registers are the same, so these stand at the same
positions; registers of one name have the same kind; and with the kinds known it is known how many
ports each of them has, so also the widths are the same. Of the base address the text tells the bits
above the local ones.
-/

set_option autoImplicit false

namespace RegMap

open Verilog Text

theorem Register.eq_of_ports {rs rs' : List Register} {rest rest' : List Port}
    (h : rs.map (fun r => (r.name, r.offset, r.kind)) =
      rs'.map fun r => (r.name, r.offset, r.kind))
    (hp : rs.flatMap Register.ports ++ rest = rs'.flatMap Register.ports ++ rest') : rs = rs' := by
  induction rs generalizing rs' with
  | nil => exact (List.map_eq_nil_iff.mp h.symm).symm
  | cons r rs ih =>
    cases rs' with
    | nil => cases h
    | cons r' rs' =>
      obtain ⟨name, width, offset, kind⟩ := r
      obtain ⟨name', width', offset', kind'⟩ := r'
      obtain ⟨hhead, hrest⟩ := List.cons.inj h
      obtain ⟨rfl, rfl, rfl⟩ : name = name' ∧ offset = offset' ∧ kind = kind' := by
        simpa using hhead
      -- registers of one kind have the same number of ports, so both lists split at one place
      have hlength : (Register.ports ⟨name, width, offset, kind⟩).length =
          (Register.ports ⟨name, width', offset, kind⟩).length := by cases kind <;> rfl
      rw [List.flatMap_cons, List.flatMap_cons, List.append_assoc, List.append_assoc] at hp
      obtain ⟨hports, hp⟩ := List.append_inj hp hlength
      have hwidth : width = width' := by
        cases kind <;> exact congrArg Port.width (List.cons.inj hports).1
      rw [hwidth, ih hrest hp]

theorem Register.vector_eq_some_iff {r : Register} {vector : Nat} :
    r.vector? = some vector ↔ ∃ mask, r.kind = .interrupt mask vector := by
  cases hk : r.kind <;> simp [vector?, hk]

namespace RegisterGroup

variable {g g' : RegisterGroup} {r r' : Register} {f : Feature} {d d' i base : Nat}

theorem Readable.eq_of_name (h : g.Readable) (hr : r ∈ g.registers) (hr' : r' ∈ g.registers)
    (hn : r.name = r'.name) : r = r' :=
  List.inj_on_of_nodup_map h.distinct hr hr' hn

theorem Readable.feature_told (h : g.Readable) (hr : r ∈ g.registers) :
    f.told r.name ∈ g.told ↔ f ∈ r.kind.features := by
  constructor
  · intro hf
    obtain ⟨s, hs, hf⟩ := List.mem_flatMap.mp hf
    obtain ⟨hn, hf⟩ := (Register.feature_told (h.registers s hs)).mp hf
    rwa [h.eq_of_name hs hr hn] at hf
  · intro hf
    exact List.mem_flatMap.mpr ⟨r, hr, (Register.feature_told (h.registers r hr)).mpr ⟨rfl, hf⟩⟩

theorem Readable.vector_told (h : g.Readable) (hr : r ∈ g.registers) {vector : Nat} :
    (.net r.flag, "int_vec", decimal vector) ∈ g.arms.map lineTold ↔ r.vector? = some vector := by
  refine RegisterGroup.vector_told.trans ⟨?_, fun hv => ⟨r, hr, rfl, vector, hv, rfl⟩⟩
  rintro ⟨s, hs, hn, v, hv, htext⟩
  rwa [h.eq_of_name hs hr hn, ← decimal_inj htext] at hv

/-- A first link that gives another value than 0 is that of the register with the name. -/
theorem Readable.default_of_told (h : g.Readable) (hr : r ∈ g.registers)
    (ht : resetTold r.name d ∈ g.told) : r.kind.default? = some d ∨ d = 0 := by
  obtain ⟨s, hs, ht⟩ := List.mem_flatMap.mp ht
  refine (Register.default_of_told ht).imp_left fun ⟨hn, hd⟩ => ?_
  rwa [← h.eq_of_name hr hs hn] at hd

section

variable (h : g.Readable) (h' : g'.Readable)
  (he : g.toModule.statementLines = g'.toModule.statementLines)

include h h' he

theorem names_eq : g.registers.map (·.name) = g'.registers.map (·.name) := by
  have htold : (g.registers.map fun r => (Expr.net r.readSelect, "rd_data", r.name.toList)) =
      g'.registers.map fun r => (.net r.readSelect, "rd_data", r.name.toList) := by
    rw [← names_told, ← names_told, arms_told h h' he]
  have hnames := congrArg (List.map fun x => String.ofList x.2.2) htold
  simpa only [List.map_map, Function.comp_def, String.ofList_toList] using hnames

theorem default_eq (hr : r ∈ g.registers) (hr' : r' ∈ g'.registers) (hn : r.name = r'.name)
    (hd : r.kind.default? = some d) (hd' : r'.kind.default? = some d') : d = d' := by
  have ht := told_of_lines h h' he
  have hmem : resetTold r.name d ∈ g.told := List.mem_flatMap.mpr ⟨r, hr, Register.reset_told hd⟩
  have hmem' : resetTold r'.name d' ∈ g'.told :=
    List.mem_flatMap.mpr ⟨r', hr', Register.reset_told hd'⟩
  rw [ht, hn] at hmem
  rw [← ht, ← hn] at hmem'
  -- what is found under the name is the value of the register there, or that of a strobe; two
  -- values that are both found as the other group's strobe are both 0
  rcases h'.default_of_told hr' hmem with hsame | rfl
  · exact Option.some.inj (hsame.symm.trans hd')
  · rcases h.default_of_told hr hmem' with hsame | rfl
    · exact Option.some.inj (hd.symm.trans hsame)
    · rfl

theorem kind_eq (hg : g.Built) (hg' : g'.Built) (hi : g.registers[i]? = some r)
    (hi' : g'.registers[i]? = some r') (hn : r.name = r'.name) : r.kind = r'.kind := by
  have hr := List.mem_of_getElem? hi
  have hr' := List.mem_of_getElem? hi'
  have hfeatures (f : Feature) : f ∈ r.kind.features ↔ f ∈ r'.kind.features := by
    rw [← h.feature_told hr, ← h'.feature_told hr', told_of_lines h h' he, hn]
  have hvector : r.vector? = r'.vector? := by
    refine Option.ext fun vector => ?_
    rw [← h.vector_told hr, ← h'.vector_told hr', arms_told h h' he, Register.flag, Register.flag,
      hn]
  -- interrupts are known by their vector, the other kinds by their links
  cases hv : r.vector? with
  | some vector =>
    obtain ⟨mask, hk⟩ := Register.vector_eq_some_iff.mp hv
    obtain ⟨mask', hk'⟩ := Register.vector_eq_some_iff.mp (hvector ▸ hv)
    rw [hk, hk', interrupt_position hg hi hk, interrupt_position hg' hi' hk']
  | none =>
    have hother {s : Register} (hs : s.vector? = none) (mask vector : Nat) :
        s.kind ≠ .interrupt mask vector := fun hk => by
      rw [Register.vector_eq_some_iff.mpr ⟨mask, hk⟩] at hs
      cases hs
    exact RegisterKind.eq_of_features (hother hv) (hother (hvector ▸ hv)) hfeatures
      fun d d' => default_eq h h' he hr hr' hn

/-- Registers at one position have the same name, and so all but their widths in common. -/
theorem described_eq (hg : g.Built) (hg' : g'.Built) :
    g.registers.map (fun r => (r.name, r.offset, r.kind)) =
      g'.registers.map fun r => (r.name, r.offset, r.kind) := by
  have hnames := names_eq h h' he
  refine List.ext_getElem? fun i => ?_
  have hname : (g.registers[i]?).map (·.name) = (g'.registers[i]?).map (·.name) := by
    rw [← List.getElem?_map, hnames, List.getElem?_map]
  rw [List.getElem?_map, List.getElem?_map]
  cases hi : g.registers[i]? with
  | none =>
    rw [hi] at hname
    rw [Option.map_eq_none_iff.mp hname.symm]
  | some r =>
    rw [hi] at hname
    obtain ⟨r', hi', hn⟩ := Option.map_eq_some_iff.mp hname.symm
    rw [hi', Option.map_some, Option.map_some, hn, hg.offset hi, hg'.offset hi',
      kind_eq h h' he hg hg' hi hi' hn.symm]

end

theorem base_eq (hmapping : g.bus.mapping = g'.bus.mapping)
    (haddress : g.bus.addressWidth = g'.bus.addressWidth) (hlocal : g.localWidth = g'.localWidth)
    (he : g.toModule.statementLines = g'.toModule.statementLines) :
    g.bus.baseAddress >>> g.localWidth = g'.bus.baseAddress >>> g'.localWidth := by
  have hhead (g : RegisterGroup) : g.toModule.statementLines.head? =
      some ("block_select = (addr".toList ++ ('[' :: decimal (g.bus.addressWidth - 1) ++
        ':' :: decimal g.localWidth ++ "] == ".toList) ++
        (decimal (g.bus.baseAddress >>> g.localWidth) ++
          ')' :: (" & !".toList ++ g.bus.mapping.requestPin.toList ++ [';']))) := by
    change some (Assignment.wire " = ".toList _) = _
    simp only [Assignment.wire, Expr.wire]
    simp
  have hfirst := congrArg List.head? he
  rw [hhead, hhead, hmapping, haddress, hlocal] at hfirst
  have hrest := List.append_cancel_left (Option.some.inj hfirst)
  rw [hlocal]
  exact decimal_inj
    (append_cons_inj (decimal_all _) (decimal_all _) (by decide) (by decide) hrest).1

def rebased (g : RegisterGroup) (base : Nat) : RegisterGroup :=
  { g with bus := { g.bus with baseAddress := base } }

/-- The local bits of the base address do not show. -/
theorem wire_rebased (h : base >>> g.localWidth = g.bus.baseAddress >>> g.localWidth) :
    (g.rebased base).wire = g.wire := by
  have hselect : (g.rebased base).blockSelect = g.blockSelect := by
    rw [blockSelect, blockSelect, ← h]
    rfl
  have hdecoder : (g.rebased base).decoder = g.decoder := by
    rw [decoder, decoder, hselect]
    rfl
  rw [wire, wire, toModule, toModule, hdecoder]
  rfl

/-- Groups have the same text just if they agree in all but the local bits of the base address. -/
theorem wire_eq_iff (hg : g.Built) (hg' : g'.Built) (h : g.Readable) (h' : g'.Readable) :
    g.wire = g'.wire ↔
      g.name = g'.name ∧ g.bus.mapping = g'.bus.mapping ∧
        g.bus.addressWidth = g'.bus.addressWidth ∧ g.bus.dataWidth = g'.bus.dataWidth ∧
        g.bus.baseAddress >>> g.localWidth = g'.bus.baseAddress >>> g'.localWidth ∧
        g.registers = g'.registers := by
  constructor
  · intro he
    obtain ⟨hname, hports, hlines⟩ := told_of_wire h.legible h'.legible he
    obtain ⟨⟨hmapping, haddress, hdata⟩, hrest⟩ := bus_eq (ports_eq h h' hports)
    have hregisters : g.registers = g'.registers :=
      Register.eq_of_ports (described_eq h h' hlines hg hg') hrest
    have hlocal : g.localWidth = g'.localWidth := by
      rw [localWidth, localWidth, size, size, hregisters]
    exact ⟨hname, hmapping, haddress, hdata, base_eq hmapping haddress hlocal hlines, hregisters⟩
  · rintro ⟨hname, hmapping, haddress, hdata, hbase, hregisters⟩
    have hrebased : g = g'.rebased g.bus.baseAddress := by
      obtain ⟨name, ⟨base, addressWidth, dataWidth, mapping⟩, registers⟩ := g
      simp_all [rebased]
    have hlocal : g.localWidth = g'.localWidth := by
      rw [localWidth, localWidth, size, size, hregisters]
    rw [hlocal] at hbase
    rw [hrebased]
    exact wire_rebased hbase

def imitating (type : RegisterType) : RegisterGroup :=
  .ofSpecs "pair" {} [{ type, name := "a", width := 4 }, { type := .config, name := "a_stb" }]

theorem built_imitating (type : RegisterType) : (imitating type).Built :=
  built_iff.mpr ⟨_, _, _, rfl⟩

theorem readable_imitating (type : RegisterType) (ht : type = .status ∨ type = .readStb) :
    (imitating type).Readable := by
  rcases ht with rfl | rfl <;> exact
    ⟨by decide, by decide, by decide, by decide, by decide, by decide⟩

theorem wire_eq_iff_imitating :
    ((imitating .status).Built ∧ (imitating .status).Readable) ∧
      ((imitating .readStb).Built ∧ (imitating .readStb).Readable) ∧
      (imitating .status).wire ≠ (imitating .readStb).wire := by
  have hstatus := readable_imitating .status (.inl rfl)
  have hstrobe := readable_imitating .readStb (.inr rfl)
  refine ⟨⟨built_imitating _, hstatus⟩, ⟨built_imitating _, hstrobe⟩, fun he => ?_⟩
  obtain ⟨-, -, -, -, -, hregisters⟩ :=
    (wire_eq_iff (built_imitating _) (built_imitating _) hstatus hstrobe).mp he
  exact absurd hregisters (by decide)

end RegisterGroup

end RegMap
