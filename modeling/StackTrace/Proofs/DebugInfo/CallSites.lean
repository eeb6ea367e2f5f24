import Mathlib.Data.List.Forall2
import StackTrace.Proofs.DebugInfo.Records
import StackTrace.Proofs.DebugInfo.Descriptors

/-!
# From call sites to scopes

Code that was built from call sites has a descriptor at exactly the code offsets of these sites, and
from each the scopes of the site are decoded, innermost first.  Sites may come in any order and several
may have one code offset: the first recorded one counts.

## Key results

- `CodeBuilder.Records.foldl`: what a run of `callSite` has recorded
- `CompiledCode.Chain`: scopes as a reader meets them that follows callers up to the physical method
- `CompiledCode.decodes_ofCallSites`: the scopes of a call site are what is met from its descriptor
- `CompiledCode.scopes_of_callSites`: the round trip
-/

namespace StackTrace

/-- Whether `Writer.bci` can write the indices of a call site: that of a synchronization entry, and
    those that a signed 32-bit word holds after adding one. -/
def CallSite.Encodable (site : CallSite) : Prop :=
  ∀ a ∈ site.active, -1 ≤ a.2 ∧ a.2 ≤ 2 ^ 31 - 2

namespace CallSite

/-- `CallSite.scopes` is never empty: a call site without methods stands for the physical one. -/
theorem scopes_ne_nil (site : CallSite) (method : Method) : site.scopes method ≠ [] := by
  unfold scopes
  split
  · simp
  · rename_i hactive
    simpa using hactive

/-- Every index of `CallSite.scopes` can be read back if the call site is `CallSite.Encodable`. -/
private theorem Encodable.scopes {site : CallSite} (h : site.Encodable) (method : Method) :
    ∀ a ∈ site.scopes method, -1 ≤ a.2 ∧ a.2 ≤ 2 ^ 31 - 2 := by
  intro a ha
  unfold CallSite.scopes at ha
  split at ha
  · simp only [List.mem_singleton] at ha
    rw [ha]
    omega
  · exact h a ha

end CallSite

namespace CodeBuilder

/-! ### Recording -/

/-- The descriptor `desc` leads to the scopes of a call site, as `HasChain` has them. -/
def LeadsTo (b : CodeBuilder) (desc : PcDesc) (site : CallSite) : Prop :=
  desc.pc = site.pc ∧ ∃ scopes, b.HasChain desc.scopeOffset scopes ∧
    scopes.map Scope.place = (site.scopes b.method).reverse

/-- `CodeBuilder.LeadsTo` outlasts whatever else is recorded. -/
private theorem LeadsTo.extends {b b' : CodeBuilder} {desc : PcDesc} {site : CallSite}
    (h : b.LeadsTo desc site) (hb : b.Extends b') : b'.LeadsTo desc site := by
  obtain ⟨hpc, scopes, hchain, hplaces⟩ := h
  refine ⟨hpc, scopes, hchain.extends hb, ?_⟩
  rw [hplaces, hb.method_eq]

/-- What has been recorded: the call sites, in this order, each by `LeadsTo`. -/
structure Records (b : CodeBuilder) (sites : List CallSite) : Prop where
  padded : b.Padded
  pcDescs : List.Forall₂ b.LeadsTo b.pcDescs.reverse sites

/-- Nothing is recorded yet in `CodeBuilder.ofMethod`. -/
private theorem records_ofMethod (method : Method) : (ofMethod method).Records [] :=
  ⟨padded_ofMethod method, .nil⟩

/-- `CodeBuilder.scopeChain` records no descriptor. -/
private theorem scopeChain_pcDescs (b : CodeBuilder) (sender : Nat) (active : List (Method × Int)) :
    (b.scopeChain sender active).2.pcDescs = b.pcDescs := by
  induction active generalizing b sender with
  | nil => rfl
  | cons first inner ih => exact ih ..

/-- `CodeBuilder.callSite` records one more call site, and those before it stay as they are. -/
theorem Records.callSite {b : CodeBuilder} {sites : List CallSite} (h : b.Records sites)
    (site : CallSite) :
    (b.callSite site).Records (sites ++ [site]) ∧ b.Extends (b.callSite site) := by
  obtain ⟨hextends, hpadded, scopes, hchain, hplaces⟩ :=
    hasChain_scopeChain h.padded .nil (site.scopes b.method)
  -- The new descriptor is not among the bytes and methods, so records are the same without it
  have hsame : (b.scopeChain 0 (site.scopes b.method)).2.Extends (b.callSite site) :=
    ⟨rfl, List.prefix_refl _, List.prefix_refl _⟩
  have hall := hextends.trans hsame
  -- The descriptor is taken down last, so it comes behind all others
  have hdescs : (b.callSite site).pcDescs.reverse = b.pcDescs.reverse ++
      [⟨site.pc, (b.scopeChain 0 (site.scopes b.method)).1⟩] := by
    simp [CodeBuilder.callSite, scopeChain_pcDescs]
  have hnew : (b.callSite site).LeadsTo ⟨site.pc, (b.scopeChain 0 (site.scopes b.method)).1⟩ site := by
    refine ⟨rfl, scopes, hchain.extends hsame, ?_⟩
    rw [hplaces, hall.method_eq]
    simp
  refine ⟨⟨⟨hpadded.bytes_pos, hpadded.metadata_le⟩, ?_⟩, hall⟩
  rw [hdescs]
  exact List.rel_append (h.pcDescs.imp fun _ _ hleads => hleads.extends hall) (.cons hnew .nil)

/-- A run of `callSite` records all its call sites. -/
theorem Records.foldl {b : CodeBuilder} {done : List CallSite} (h : b.Records done)
    (sites : List CallSite) :
    (sites.foldl CodeBuilder.callSite b).Records (done ++ sites) ∧
      (sites.foldl CodeBuilder.callSite b).method = b.method := by
  induction sites generalizing b done with
  | nil => exact ⟨by simpa using h, rfl⟩
  | cons site rest ih =>
    obtain ⟨hsite, hextends⟩ := h.callSite site
    obtain ⟨hrest, hmethod⟩ := ih hsite
    rw [List.append_assoc] at hrest
    exact ⟨hrest, hmethod.trans hextends.method_eq⟩

/-- The first descriptor that `List.find?` meets for a code offset leads to the first call site recorded
    there. -/
private theorem find?_leadsTo {b : CodeBuilder} {descs : List PcDesc} {sites : List CallSite}
    (h : List.Forall₂ b.LeadsTo descs sites) (pc : Nat) :
    Option.Rel b.LeadsTo (descs.find? (·.pc == pc)) (sites.find? (·.pc == pc)) := by
  induction h with
  | nil => exact .none
  | @cons desc site _ _ hfirst _ ih =>
    rw [List.find?_cons, List.find?_cons, hfirst.1]
    split
    · exact .some hfirst
    · exact ih

/-- `CompiledCode.pcDescAt` leads to the first call site recorded for the offset. -/
private theorem Records.pcDescAt_build {b : CodeBuilder} {sites : List CallSite} (h : b.Records sites)
    (pc : Nat) : Option.Rel b.LeadsTo (b.build.pcDescAt pc) (sites.find? (·.pc == pc)) := by
  rw [CodeBuilder.pcDescAt_build]
  exact find?_leadsTo h.pcDescs pc

end CodeBuilder

namespace CompiledCode

/-! ### Decoding -/

/-- Scopes as `CompiledCode.scopeAt` gives them to a reader that starts at an offset and goes from each
    scope to its caller: every record decodes, and the first scope without a caller ends the chain. -/
inductive Chain (c : CompiledCode) : Nat → List Scope → Prop
  | physical {offset : Nat} {s : Scope} (read : c.scopeAt offset = .ok s)
      (physical : s.isPhysical = true) : Chain c offset [s]
  | inlined {offset : Nat} {s : Scope} {outer : List Scope} (read : c.scopeAt offset = .ok s)
      (inlined : s.isPhysical = false) (rest : Chain c s.sender outer) : Chain c offset (s :: outer)

/-- What is met from an offset: a `Chain` of scopes whose offsets decrease, and of which exactly the
    last is that of the physical method. -/
structure Decodes (c : CompiledCode) (offset : Nat) (scopes : List Scope) : Prop where
  chain : c.Chain offset scopes
  senders_decrease : (offset :: scopes.map (·.sender)).Pairwise (· > ·)
  isPhysical_iff : ∀ i s, scopes[i]? = some s → (s.isPhysical = true ↔ i + 1 = scopes.length)

/-- Along a `CompiledCode.Chain` whose offsets decrease, `CompiledCode.scopesFrom` meets all scopes and
    no error. -/
theorem Chain.scopesFrom_eq {c : CompiledCode} {offset : Nat} {scopes : List Scope}
    (h : c.Chain offset scopes) (hdec : (offset :: scopes.map (·.sender)).Pairwise (· > ·)) :
    c.scopesFrom offset = (scopes, none) := by
  induction h with
  | physical read physical =>
    unfold scopesFrom
    simp only [read, physical, if_true]
  | @inlined offset s outer read inlined rest ih =>
    obtain ⟨hall, hrest⟩ := List.pairwise_cons.mp hdec
    have hsender : s.sender < offset := hall s.sender (by simp)
    unfold scopesFrom
    simp only [read, inlined, hsender, ih hrest, Bool.false_eq_true, if_false, if_true]

end CompiledCode

/-- The records of a `CodeBuilder.HasChain` are decoded to its scopes, once `CodeBuilder.build` has
    finished the code. -/
private theorem CodeBuilder.HasChain.chain_build {b : CodeBuilder} {offset : Nat} {scopes : List Scope}
    (h : b.HasChain offset scopes) (hne : scopes ≠ []) (hb : b.Padded)
    (hsize : b.scopes.bytes.size ≤ 2 ^ 32)
    (hbcis : ∀ a ∈ scopes.map Scope.place, -1 ≤ a.2 ∧ a.2 ≤ 2 ^ 31 - 2) :
    b.build.Chain offset scopes := by
  -- Induction on the chain, from the innermost scope outwards
  induction h with
  | nil => exact absurd rfl hne
  | @cons offset s outer record sender_lt rest ih =>
    obtain ⟨hlow, hhigh⟩ := hbcis s.place (by simp)
    have hread := record.scopeAt_build hb hsize sender_lt hlow hhigh
    have hnil := rest.eq_nil_iff
    cases outer with
    | nil =>
      -- Nothing is further out, so the sender is the null offset
      have hsender : s.sender = 0 := hnil.mpr rfl
      exact .physical hread (by simp [Scope.isPhysical, hsender])
    | cons caller outer =>
      have hsender : s.sender ≠ 0 := by simp [hnil]
      apply CompiledCode.Chain.inlined hread
      · simp [Scope.isPhysical, hsender]
      · exact ih (by simp) fun a ha => hbcis a (List.mem_cons_of_mem _ ha)

namespace CompiledCode

/-- The scopes of a call site are what is met from its descriptor in `ofCallSites`. -/
theorem decodes_ofCallSites (method : Method) {sites : List CallSite}
    (hbcis : ∀ site ∈ sites, site.Encodable)
    (hsize : (ofCallSites method sites).scopes.size ≤ 2 ^ 32) (pc : Nat) :
    Option.Rel
      (fun desc site => desc.pc = site.pc ∧
        ∃ scopes, (ofCallSites method sites).Decodes desc.scopeOffset scopes ∧
          scopes.map Scope.place = (site.scopes method).reverse)
      ((ofCallSites method sites).pcDescAt pc) (sites.find? (·.pc == pc)) := by
  obtain ⟨hrecords, hmethod⟩ := (CodeBuilder.records_ofMethod method).foldl sites
  rw [List.nil_append] at hrecords
  have hfound : Option.Rel _ ((ofCallSites method sites).pcDescAt pc) _ := hrecords.pcDescAt_build pc
  -- Both look-ups find something or neither does
  generalize hdesc : (ofCallSites method sites).pcDescAt pc = desc? at hfound ⊢
  generalize hsite : sites.find? (·.pc == pc) = site? at hfound ⊢
  cases hfound with
  | none => exact .none
  | @some desc site hleads =>
    obtain ⟨hpc, scopes, hchain, hplaces⟩ := hleads
    rw [hmethod] at hplaces
    -- The scopes are those of a call site, so there is one and their indices can be read back
    have hne : scopes ≠ [] := by
      intro hnil
      rw [hnil, List.map_nil, eq_comm, List.reverse_eq_nil_iff] at hplaces
      exact site.scopes_ne_nil method hplaces
    have hrange : ∀ a ∈ scopes.map Scope.place, -1 ≤ a.2 ∧ a.2 ≤ 2 ^ 31 - 2 := by
      intro a ha
      rw [hplaces, List.mem_reverse] at ha
      exact (hbcis site (List.mem_of_find?_eq_some hsite)).scopes method a ha
    have hbuilt := hchain.chain_build hne hrecords.padded hsize hrange
    have hdec := List.isChain_iff_pairwise.mp hchain.senders_decrease
    exact .some ⟨hpc, scopes, ⟨hbuilt, hdec, fun i s hi => hchain.isPhysical_iff hi⟩, hplaces⟩

/-- Where call sites were recorded, and only there, `CompiledCode.pcDescAt` has a descriptor.  From it
    `CompiledCode.scopesFrom` decodes the scopes of the first call site recorded there without an error,
    innermost first, with the methods and indices that were given, or with the physical method at index
    0 if none were.  The offsets along the way decrease, and exactly the last scope is that of the
    physical method. -/
theorem scopes_of_callSites (method : Method) {sites : List CallSite}
    (hbcis : ∀ site ∈ sites, site.Encodable)
    (hsize : (ofCallSites method sites).scopes.size ≤ 2 ^ 32) (pc : Nat) :
    (((ofCallSites method sites).pcDescAt pc).isSome = true ↔ ∃ site ∈ sites, site.pc = pc) ∧
    ∀ site, sites.find? (·.pc == pc) = some site →
      ∃ desc scopes, (ofCallSites method sites).pcDescAt pc = some desc ∧ desc.pc = pc ∧
        (ofCallSites method sites).Chain desc.scopeOffset scopes ∧
        (ofCallSites method sites).scopesFrom desc.scopeOffset = (scopes, none) ∧
        scopes.map Scope.place = (site.scopes method).reverse ∧
        (desc.scopeOffset :: scopes.map (·.sender)).Pairwise (· > ·) ∧
        ∀ i s, scopes[i]? = some s → (s.isPhysical = true ↔ i + 1 = scopes.length) := by
  have hdecodes := decodes_ofCallSites method hbcis hsize pc
  -- Either nothing is found for the offset, or the descriptor of the first call site
  generalize hdesc : (ofCallSites method sites).pcDescAt pc = desc? at hdecodes ⊢
  generalize hsite : sites.find? (·.pc == pc) = site? at hdecodes ⊢
  cases hdecodes with
  | none =>
    refine ⟨?_, nofun⟩
    have hnone := List.find?_eq_none.mp hsite
    simpa using hnone
  | @some desc site hleads =>
    obtain ⟨hpc, scopes, ⟨hchain, hdec, hphysical⟩, hplaces⟩ := hleads
    have hsitePc : site.pc = pc := by simpa using List.find?_some hsite
    constructor
    -- There is a descriptor, and there is a call site
    · have hmem := List.mem_of_find?_eq_some hsite
      simp only [Option.isSome_some, true_iff]
      exact ⟨site, hmem, hsitePc⟩
    · intro site' hsite'
      cases hsite'
      exact ⟨desc, scopes, rfl, hpc.trans hsitePc, hchain, hchain.scopesFrom_eq hdec, hplaces, hdec,
        hphysical⟩

/-- `scopes_of_callSites` for three methods nested at one code offset, the innermost just entering a
    synchronized method. Another call site with a lower offset comes later, and so does one with the
    same offset, which does not count. -/
theorem scopes_of_callSites_nested :
    let method (name : String) (place : Nat) : Method :=
      ⟨⟨0⟩, 0, place, place, ⟨name, place⟩, ⟨"()V", 9⟩, {}, 64, []⟩
    let outer := method "outer" 0
    let sites : List CallSite :=
      [⟨40, [(outer, 12), (method "middle" 1, 2 ^ 31 - 2), (method "inner" 2, -1)]⟩, ⟨8, []⟩,
        ⟨40, [(outer, 3)]⟩]
    (∀ site ∈ sites, site.Encodable) ∧ (ofCallSites outer sites).scopes.size ≤ 2 ^ 32 ∧
      ∃ desc scopes, (ofCallSites outer sites).pcDescAt 40 = some desc ∧
        (ofCallSites outer sites).scopesFrom desc.scopeOffset = (scopes, none) ∧
        scopes.map Scope.place =
          [(method "inner" 2, -1), (method "middle" 1, 2 ^ 31 - 2), (outer, 12)] := by
  intro method outer sites
  have hbcis : ∀ site ∈ sites, site.Encodable := by
    simp only [sites, CallSite.Encodable, List.forall_mem_cons, List.not_mem_nil]
    simp
  have hsize : (ofCallSites outer sites).scopes.size ≤ 2 ^ 32 := by
    decide +kernel
  obtain ⟨-, hscopes⟩ := scopes_of_callSites outer hbcis hsize 40
  obtain ⟨desc, scopes, hdesc, -, -, hfrom, hplaces, -⟩ := hscopes _ rfl
  exact ⟨hbcis, hsize, desc, scopes, hdesc, hfrom, hplaces⟩

end CompiledCode

end StackTrace
