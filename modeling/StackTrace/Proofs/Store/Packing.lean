import StackTrace.Proofs.Store.Operations

/-!
# The word of a location

A location is one word: the bytecode index shifted into the high half, and the class version below it.
Packing loses nothing but what the halves have no room for: the index of the synchronization entry
becomes 0, and every generation from 65535 on becomes the saturated version.

## Key results

- `Location.bci_eq_shiftRight`, `Location.version_eq_and`, `Location.word_eq`: the halves and the word as
  shifts and masks of each other
- `Location.pack_halves`: every word is packed from what is read from it
- `Location.halves_of_pack`: what packing keeps, which packed words are equal, and when packing fails
-/

namespace StackTrace

namespace Location

/-- `Location.fits` fails below the synchronization entry and above what 16 bits can hold. -/
private theorem fits_eq_false_iff (bci : Int) : fits bci = false ↔ bci < -1 ∨ 65535 < bci := by
  rw [← Bool.not_eq_true, fits_iff]
  omega

/-! ## The halves of a word -/

/-- `Location.bci` is the high half of the word. -/
theorem bci_eq_shiftRight (l : Location) : l.bci = (l.word >>> 16).toNat := by
  rw [bci, UInt32.toNat_shiftRight, Nat.shiftRight_eq_div_pow]
  rfl

/-- `Location.version` is the low half of the word. -/
theorem version_eq_and (l : Location) : l.version = (l.word &&& 0xFFFF).toNat := by
  rw [version, UInt32.toNat_and]
  exact (Nat.and_two_pow_sub_one_eq_mod l.word.toNat 16).symm

/-- What is read from a word can be packed by `Location.pack`, and the version is not saturated any
    further. -/
private theorem halves_fit (l : Location) : fits l.bci = true ∧ l.version ≤ 65535 := by
  have hword := l.word.toNat_lt
  rw [fits_iff]
  simp only [bci, version]
  omega

/-- In `Location.word` the index is shifted into the high half, and the version does not reach
    into it. -/
theorem word_eq (l : Location) :
    l.word = UInt32.ofNat l.bci.toNat <<< 16 ||| UInt32.ofNat l.version := by
  have hword := l.word.toNat_lt
  have hhigh : (UInt32.ofNat l.bci.toNat).toNat = l.word.toNat / 2 ^ 16 :=
    UInt32.toNat_ofNat_of_lt' (by simp only [bci, UInt32.size, Int.toNat_natCast]; omega)
  have hlow : (UInt32.ofNat l.version).toNat = l.word.toNat % 2 ^ 16 :=
    UInt32.toNat_ofNat_of_lt' (by simp only [version, UInt32.size]; omega)
  have hshift : UInt32.toNat 16 % 32 = 16 := rfl
  -- Nothing is shifted out of the word
  have hroom : (l.word.toNat / 2 ^ 16) <<< 16 < 2 ^ 32 := by
    rw [Nat.shiftLeft_eq]
    omega
  have hhalf : l.word.toNat % 2 ^ 16 < 2 ^ 16 := Nat.mod_lt _ (by decide)
  rw [← UInt32.toNat_inj, UInt32.toNat_or, UInt32.toNat_shiftLeft, hhigh, hlow, hshift,
    Nat.mod_eq_of_lt hroom, ← Nat.shiftLeft_add_eq_or_of_lt hhalf, Nat.shiftLeft_eq,
    Nat.div_add_mod']

/-- A location is determined by `Location.bci` and `Location.version`. -/
theorem eq_of_halves {l l' : Location} (hbci : l.bci = l'.bci) (hversion : l.version = l'.version) :
    l = l' := by
  have hword : l.word = l'.word := by rw [l.word_eq, l'.word_eq, hbci, hversion]
  cases l
  cases l'
  exact congrArg mk hword

/-- `Location.pack` makes every word of what is read from it. -/
theorem pack_halves (l : Location) : pack l.bci l.version = .ok l := by
  obtain ⟨hfits, hversion⟩ := l.halves_fit
  obtain ⟨l', hpack, hbci', hversion'⟩ := pack_of_fits hfits l.version
  -- Neither half is changed: the index is not negative, and the version is not too large
  have hnonneg : 0 ≤ l.bci := Int.natCast_nonneg _
  rw [Int.max_eq_left hnonneg] at hbci'
  rw [versionOf, saturatedVersion, Nat.min_eq_left hversion] at hversion'
  rw [hpack, eq_of_halves hbci' hversion']

/-! ## Packing -/

/-- Two words by `Location.pack` are equal exactly if their halves are. -/
private theorem pack_eq_pack_iff {bci bci' : Int} (hfits : fits bci = true) (hfits' : fits bci' = true)
    (generation generation' : Nat) : pack bci generation = pack bci' generation' ↔
      max bci 0 = max bci' 0 ∧ versionOf generation = versionOf generation' := by
  obtain ⟨l, hpack, hbci, hversion⟩ := pack_of_fits hfits generation
  obtain ⟨l', hpack', hbci', hversion'⟩ := pack_of_fits hfits' generation'
  rw [hpack, hpack', Except.ok.injEq, ← hbci, ← hbci', ← hversion, ← hversion']
  constructor
  · rintro rfl
    exact ⟨rfl, rfl⟩
  · rintro ⟨hhigh, hlow⟩
    exact eq_of_halves hhigh hlow

/-- `Location.pack` packs an index that fits with any generation, and both are found in the halves of
    the word, the synchronization entry as 0 and a generation beyond 65535 as 65535.  What is read from
    a word by `Location.bci` and `Location.version` packs to that word again, so packed words are equal
    exactly if their halves are.  Packing fails for the indices that do not fit, which are those below
    -1 and those above 65535. -/
theorem halves_of_pack :
    (∀ (bci : Int) (generation : Nat), fits bci = true → ∃ l : Location,
      pack bci generation = .ok l ∧
      l.word = UInt32.ofNat (max bci 0).toNat <<< 16 ||| UInt32.ofNat (min generation 65535) ∧
      l.bci = max bci 0 ∧ l.version = min generation 65535) ∧
    (∀ l : Location, l.bci = (l.word >>> 16).toNat ∧ l.version = (l.word &&& 0xFFFF).toNat ∧
      pack l.bci l.version = .ok l) ∧
    (∀ (bci bci' : Int) (generation generation' : Nat), fits bci = true → fits bci' = true →
      (pack bci generation = pack bci' generation' ↔
        max bci 0 = max bci' 0 ∧ min generation 65535 = min generation' 65535)) ∧
    (∀ (bci : Int) (generation : Nat) (v : Violation),
      pack bci generation = .error v ↔ fits bci = false ∧ v = .bciDoesNotFit bci) ∧
    ∀ bci : Int, fits bci = false ↔ bci < -1 ∨ 65535 < bci := by
  refine ⟨fun bci generation hfits => ?_, fun l => ?_, fun bci bci' generation generation' => ?_,
    pack_eq_error_iff, fits_eq_false_iff⟩
  · obtain ⟨l, hpack, hbci, hversion⟩ := pack_of_fits hfits generation
    refine ⟨l, hpack, ?_, hbci, hversion⟩
    rw [l.word_eq, hbci, hversion]
    rfl
  · exact ⟨l.bci_eq_shiftRight, l.version_eq_and, l.pack_halves⟩
  · exact fun hfits hfits' => pack_eq_pack_iff hfits hfits' generation generation'

/-- `halves_of_pack` where the largest index and a generation past the saturated one fill the word; the
    synchronization entry is packed like index 0. -/
theorem halves_of_pack_widest :
    (fits 65535 = true ∧ fits (-1) = true ∧ fits 0 = true) ∧
    (∃ l : Location, pack 65535 70000 = .ok l ∧ l.word = 0xFFFFFFFF ∧ l.version = 65535) ∧
    pack (-1) 65535 = pack 0 70000 := by
  obtain ⟨hpacked, -, hequal, -⟩ := halves_of_pack
  have hwidest : fits 65535 = true := rfl
  have hsync : fits (-1) = true := rfl
  have hzero : fits 0 = true := rfl
  obtain ⟨l, hpack, hword, -, hversion⟩ := hpacked 65535 70000 hwidest
  exact ⟨⟨hwidest, hsync, hzero⟩, ⟨l, hpack, hword.trans (by decide), hversion⟩,
    (hequal (-1) 0 65535 70000 hsync hzero).mpr ⟨by decide, by decide⟩⟩

end Location

end StackTrace
