import StackTrace.DebugInfo.Code
import StackTrace.Proofs.DebugInfo.Unsigned5

/-!
# Scope records

The bytes of a record once written stay where they are, and so does every method in the table:
recording only appends to either (`CodeBuilder.Extends`).  So what a record stands for can be read off
the code under construction (`CodeBuilder.HasRecord`), stays true of it, and is what `scopeAt` decodes
in the finished code.

A chain of records is described from its innermost record out (`CodeBuilder.HasChain`).  Each record
names a caller that was written before it, so the offsets along a chain decrease, and only the record
without a caller is that of the physical method.

## Key results

- `CodeBuilder.HasRecord.scopeAt_build`: a record is decoded to the scope that was recorded
- `CodeBuilder.hasChain_scopeChain`: recording nested scopes writes their chain
-/

namespace StackTrace

open Unsigned5

/-- What a scope says about the running code: which method is active, and where. -/
def Scope.place (s : Scope) : Method × Int := (s.method, s.bci)

namespace CodeBuilder

/-! ### Appending -/

/-- Nothing that was recorded is lost. -/
structure Extends (b b' : CodeBuilder) : Prop where
  method_eq : b'.method = b.method
  bytes : b.scopes.bytes.toList <+: b'.scopes.bytes.toList
  metadata : b.metadata.toList <+: b'.metadata.toList

/-- `Extends` is reflexive. -/
theorem Extends.refl (b : CodeBuilder) : b.Extends b :=
  ⟨rfl, List.prefix_refl _, List.prefix_refl _⟩

/-- `Extends` is transitive. -/
theorem Extends.trans {b b' b'' : CodeBuilder} (h : b.Extends b') (h' : b'.Extends b'') :
    b.Extends b'' :=
  ⟨h'.method_eq.trans h.method_eq, h.bytes.trans h'.bytes, h.metadata.trans h'.metadata⟩

/-- The index of a method by `metadataIndex` leads to the method, in a table that has at most one entry
    more. -/
private theorem metadataIndex_spec (metadata : Array Method) (m : Method) :
    (metadataIndex metadata m).2[(metadataIndex metadata m).1]? = some m ∧
      metadata.toList <+: (metadataIndex metadata m).2.toList ∧
      (metadataIndex metadata m).2.size ≤ metadata.size + 1 := by
  unfold metadataIndex
  split
  · rename_i index hfound
    obtain ⟨hlt, heq, -⟩ := Array.findIdx?_eq_some_iff_getElem.mp hfound
    have hget : metadata[index]? = some m := by
      rw [Array.getElem?_eq_getElem hlt, eq_of_beq heq]
    exact ⟨hget, List.prefix_refl _, Nat.le_succ _⟩
  · simp

/-! ### Records -/

/-- The record of `s` stands at an offset: behind the padding, its three integers one after the other,
    and its method in the table. -/
structure HasRecord (b : CodeBuilder) (offset : Nat) (s : Scope) : Prop where
  offset_pos : 0 < offset
  written : ∃ before index rest, b.scopes.bytes.toList =
      before ++ (encode s.sender.toUInt32 ++ (encode (Nat.toUInt32 index) ++ (encodeBci s.bci ++ rest))) ∧
    before.length = offset ∧ b.metadata[index]? = some s.method

/-- `HasRecord` starts in front of the end of the bytes. -/
private theorem HasRecord.offset_lt {b : CodeBuilder} {offset : Nat} {s : Scope} (h : b.HasRecord offset s) :
    offset < b.scopes.bytes.size := by
  obtain ⟨before, index, rest, hbytes, hlength, -⟩ := h.written
  have hpos := length_encode_pos s.sender.toUInt32
  rw [← Array.length_toList, hbytes, List.length_append, List.length_append]
  omega

/-- `CodeBuilder.HasRecord` outlasts whatever else is recorded. -/
private theorem HasRecord.extends {b b' : CodeBuilder} {offset : Nat} {s : Scope} (h : b.HasRecord offset s)
    (hb : b.Extends b') : b'.HasRecord offset s := by
  obtain ⟨before, index, rest, hbytes, hlength, hmethod⟩ := h.written
  obtain ⟨more, hmore⟩ := hb.bytes
  refine ⟨h.offset_pos, before, index, rest ++ more, ?_, hlength, ?_⟩
  · rw [← hmore, hbytes]
    simp only [List.append_assoc]
  · obtain ⟨methods, hmethods⟩ := hb.metadata
    rw [← Array.getElem?_toList] at hmethod ⊢
    rw [← hmethods, List.getElem?_append_left (List.getElem?_eq_some_iff.mp hmethod).1]
    exact hmethod

/-- What holds of code under construction: the padding is there, and no method came into the table
    without a byte that names it. -/
structure Padded (b : CodeBuilder) : Prop where
  bytes_pos : 0 < b.scopes.bytes.size
  metadata_le : b.metadata.size ≤ b.scopes.bytes.size

/-- `CodeBuilder.ofMethod` starts with the byte that the null offset stands for. -/
theorem padded_ofMethod (method : Method) : (ofMethod method).Padded :=
  ⟨by simp [ofMethod, Writer.empty, Writer.byte], by simp [ofMethod]⟩

/-- `CodeBuilder.scope` writes the record of one scope and keeps all others. -/
private theorem scope_spec {b : CodeBuilder} (hb : b.Padded) (sender : Nat) (m : Method) (bci : Int) :
    (b.scope sender m bci).2.HasRecord (b.scope sender m bci).1 ⟨m, bci, sender⟩ ∧
      (b.scope sender m bci).1 = b.scopes.bytes.size ∧
      b.Extends (b.scope sender m bci).2 ∧ (b.scope sender m bci).2.Padded := by
  obtain ⟨hget, hprefix, hsize⟩ := metadataIndex_spec b.metadata m
  -- The record is the sender, the index of the method and the bytecode index, in this order
  have hbytes : (b.scope sender m bci).2.scopes.bytes.toList =
      b.scopes.bytes.toList ++ (encode sender.toUInt32 ++
        (encode (metadataIndex b.metadata m).1.toUInt32 ++ (encodeBci bci ++ []))) := by
    simp [scope, Writer.int, Writer.bci]
  -- Each of the three is at least a byte, so bytes are added and the table stays shorter than they are
  have hlength := congrArg List.length hbytes
  have hpos := length_encode_pos sender.toUInt32
  simp only [List.length_append, Array.length_toList] at hlength
  refine ⟨⟨hb.bytes_pos, _, _, _, hbytes, Array.length_toList, hget⟩, rfl,
    ⟨rfl, ⟨_, hbytes.symm⟩, hprefix⟩, ?_, ?_⟩
  · have := hb.bytes_pos
    omega
  · have hmetadata : (b.scope sender m bci).2.metadata = (metadataIndex b.metadata m).2 := rfl
    have := hb.metadata_le
    rw [hmetadata]
    omega

/-- `CompiledCode.scopeAt` decodes a record to the scope that was recorded.  All offsets and indices fit
    32 bits because the bytes are no more than that many. -/
theorem HasRecord.scopeAt_build {b : CodeBuilder} {offset : Nat} {s : Scope}
    (h : b.HasRecord offset s) (hb : b.Padded) (hsize : b.scopes.bytes.size ≤ 2 ^ 32)
    (hsender : s.sender < offset) (hlow : -1 ≤ s.bci) (hhigh : s.bci ≤ 2 ^ 31 - 2) :
    b.build.scopeAt offset = .ok s := by
  have hlt := h.offset_lt
  obtain ⟨before, index, rest, hbytes, hlength, hmethod⟩ := h.written
  have hindex : index < b.metadata.size := (Array.getElem?_eq_some_iff.mp hmethod).1
  have hmetadata := hb.metadata_le
  have hsenderFits : s.sender.toUInt32.toNat = s.sender :=
    UInt32.toNat_ofNat_of_lt' (show s.sender < 2 ^ 32 by omega)
  have hindexFits : (Nat.toUInt32 index).toNat = index :=
    UInt32.toNat_ofNat_of_lt' (show index < 2 ^ 32 by omega)
  -- The reader goes over the three integers of the record one after the other
  let r : Reader := ⟨b.build.scopes, offset⟩
  have hahead : r.ahead = encode s.sender.toUInt32 ++
      (encode (Nat.toUInt32 index) ++ (encodeBci s.bci ++ rest)) := by
    have hdrop : r.ahead = b.scopes.bytes.toList.drop offset := rfl
    rw [hdrop, hbytes, ← hlength, List.drop_left]
  have hread := Reader.int_encode hahead
  have hahead' := Reader.ahead_move hahead
  have hread' := Reader.int_encode hahead'
  have hread'' := Reader.bci_encodeBci hlow hhigh (Reader.ahead_move hahead')
  -- The offset is neither null nor behind the end
  have hinside : ¬ (offset = 0 ∨ b.build.scopes.size ≤ offset) := by
    have hpos := h.offset_pos
    have hbuild : b.build.scopes = b.scopes.bytes := rfl
    rw [hbuild]
    omega
  have htable : b.build.metadata[index]? = some s.method := hmethod
  simp only [CompiledCode.scopeAt, if_neg hinside]
  simp only [r] at hread hread' hread''
  simp only [hread, hread', hread'', hindexFits, hsenderFits, htable]

/-! ### Chains -/

/-- The `HasRecord` of nested scopes, from the one at an offset, which is that of the innermost,
    outward.  Behind the physical method there is nothing, which is what offset 0 stands for. -/
inductive HasChain (b : CodeBuilder) : Nat → List Scope → Prop
  | nil : HasChain b 0 []
  | cons {offset : Nat} {s : Scope} {outer : List Scope} (record : b.HasRecord offset s)
      (sender_lt : s.sender < offset) (rest : HasChain b s.sender outer) :
      HasChain b offset (s :: outer)

/-- `CodeBuilder.HasChain` outlasts whatever else is recorded. -/
theorem HasChain.extends {b b' : CodeBuilder} {offset : Nat} {scopes : List Scope}
    (h : b.HasChain offset scopes) (hb : b.Extends b') : b'.HasChain offset scopes := by
  induction h with
  | nil => exact .nil
  | cons record sender_lt _ ih => exact .cons (record.extends hb) sender_lt ih

/-- `HasChain` starts in front of the end of the bytes. -/
private theorem HasChain.offset_lt {b : CodeBuilder} {offset : Nat} {scopes : List Scope}
    (h : b.HasChain offset scopes) (hb : b.Padded) : offset < b.scopes.bytes.size := by
  cases h with
  | nil => exact hb.bytes_pos
  | cons record => exact record.offset_lt

/-- Only the null offset has no scope behind it in `CodeBuilder.HasChain`. -/
theorem HasChain.eq_nil_iff {b : CodeBuilder} {offset : Nat} {scopes : List Scope}
    (h : b.HasChain offset scopes) : offset = 0 ↔ scopes = [] := by
  cases h with
  | nil => simp
  | cons record =>
    have hpos := record.offset_pos
    simp
    omega

/-- The offsets along a `CodeBuilder.HasChain` decrease. -/
theorem HasChain.senders_decrease {b : CodeBuilder} {offset : Nat} {scopes : List Scope}
    (h : b.HasChain offset scopes) : (offset :: scopes.map (·.sender)).IsChain (· > ·) := by
  induction h with
  | nil => exact .singleton 0
  | cons _ sender_lt _ ih => exact .cons_cons sender_lt ih

/-- `Scope.isPhysical` holds for exactly the last scope of a chain. -/
theorem HasChain.isPhysical_iff {b : CodeBuilder} {offset : Nat} {scopes : List Scope}
    (h : b.HasChain offset scopes) {i : Nat} {s : Scope} (hi : scopes[i]? = some s) :
    s.isPhysical = true ↔ i + 1 = scopes.length := by
  -- Induction on the chain; the place in it moves along
  induction h generalizing i with
  | nil => simp at hi
  | cons record sender_lt rest ih =>
    cases i with
    | zero =>
      -- The first scope is the last one exactly if its sender is the null offset
      have hhead := Option.some.inj hi
      subst hhead
      have hnil := rest.eq_nil_iff
      rw [← List.length_eq_zero_iff] at hnil
      simp only [Scope.isPhysical, beq_iff_eq, List.length_cons]
      omega
    | succ i =>
      have hi' := ih hi
      rw [hi', List.length_cons]
      omega

/-- `CodeBuilder.scopeChain` records nested scopes inside those of a chain and so writes the chain of
    all of them. -/
theorem hasChain_scopeChain {b : CodeBuilder} (hb : b.Padded) {sender : Nat} {outer : List Scope}
    (houter : b.HasChain sender outer) (active : List (Method × Int)) :
    b.Extends (b.scopeChain sender active).2 ∧ (b.scopeChain sender active).2.Padded ∧
      ∃ scopes, (b.scopeChain sender active).2.HasChain (b.scopeChain sender active).1 scopes ∧
        scopes.map Scope.place = active.reverse ++ outer.map Scope.place := by
  induction active generalizing b sender outer with
  | nil => exact ⟨.refl b, hb, outer, houter, rfl⟩
  | cons first inner ih =>
    obtain ⟨m, bci⟩ := first
    obtain ⟨hrecord, hoffset, hextends, hpadded⟩ := scope_spec hb sender m bci
    have hlt : sender < (b.scope sender m bci).1 := by
      have := houter.offset_lt hb
      omega
    have hchain := HasChain.cons hrecord hlt (houter.extends hextends)
    obtain ⟨hextends', hpadded', scopes, hscopes, hplaces⟩ := ih hpadded hchain
    refine ⟨hextends.trans hextends', hpadded', scopes, hscopes, ?_⟩
    rw [hplaces, List.map_cons, List.reverse_cons, List.append_assoc]
    rfl

end CodeBuilder

end StackTrace
