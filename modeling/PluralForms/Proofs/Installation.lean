import Mathlib.Data.List.Basic
import PluralForms.Native.Arena

/-! Code that is installed stays. Each piece of code has an aligned range of memory of its own
inside one region, and no later installation writes over it: new code goes behind all code of the
last region, or to a region that is mapped for it. -/

namespace PluralForms.Native

theorem dvd_roundUp (n unit : Nat) : unit ∣ roundUp n unit := Nat.dvd_mul_left ..

theorem le_roundUp {unit : Nat} (h : 0 < unit) (n : Nat) : n ≤ roundUp n unit := by
  have hdiv := Nat.div_add_mod' (n + unit - 1) unit
  have hmod := Nat.mod_lt (n + unit - 1) h
  rw [roundUp]
  omega

/-! ### Writing to a region -/

namespace Region

variable {region : Region} {start offset : Nat} {code earlier : List UInt8}

theorem used_le_free (region : Region) : region.used ≤ region.free :=
  le_roundUp (by decide) region.used

theorem size_copy (h : start + code.length ≤ region.size) :
    (region.copy start code).size = region.size := by
  simp only [size] at h
  simp only [size, copy, List.length_append, List.length_take, List.length_drop]
  omega

theorem prefix_copy (h : start ≤ region.size) :
    code <+: (region.copy start code).memory.drop start := by
  have hlength : (region.memory.take start).length = start := List.length_take_of_le h
  rw [copy, List.append_assoc, List.drop_append_of_le_length (Nat.le_of_eq hlength.symm),
    List.drop_eq_nil_of_le (Nat.le_of_eq hlength), List.nil_append]
  exact List.prefix_append ..

/-- Code in front of the place where other code is written stays. -/
theorem prefix_copy_of_prefix (h : earlier <+: region.memory.drop offset)
    (hbefore : offset + earlier.length ≤ start) (hstart : start ≤ region.size) :
    earlier <+: (region.copy start code).memory.drop offset := by
  have hlength : (region.memory.take start).length = start := List.length_take_of_le hstart
  rw [copy, List.append_assoc, List.drop_append_of_le_length (by omega), List.drop_take]
  exact (List.prefix_take_iff.mpr ⟨h, by omega⟩).trans (List.prefix_append ..)

end Region

/-! ### What is installed -/

/-- Code and the place where it is installed. -/
structure Installed where
  code : List UInt8
  place : Placement

namespace Installed

/-- The code stands at its place, at an aligned offset and in the used part of its region. -/
def Stands (item : Installed) (arena : Arena) : Prop :=
  ∃ region, arena.regions[item.place.region]? = some region ∧ alignment ∣ item.place.offset ∧
    item.place.offset + item.code.length ≤ region.used ∧
    item.code <+: region.memory.drop item.place.offset

/-- Two pieces of code do not share a byte. -/
def Apart (item other : Installed) : Prop :=
  item.place.region = other.place.region →
    item.place.offset + item.code.length ≤ other.place.offset ∨
      other.place.offset + other.code.length ≤ item.place.offset

/-- The address of the first byte, where `base` gives those of the regions. -/
def address (base : Nat → Nat) (item : Installed) : Nat :=
  base item.place.region + item.place.offset

end Installed

namespace Arena

variable {arena : Arena} {items : List Installed} {code : List UInt8}

/-- A region has whole pages, at least one, and its used part lies inside. -/
def WholePages (page : Nat) (region : Region) : Prop :=
  region.used ≤ region.size ∧ 0 < region.size ∧ page ∣ region.size

/-- All that is installed stands in memory, each piece apart from the others. -/
structure Keeps (arena : Arena) (items : List Installed) : Prop where
  regions : ∀ region ∈ arena.regions, WholePages arena.page region
  stands : ∀ item ∈ items, item.Stands arena
  apart : items.Pairwise Installed.Apart

theorem keeps_nil (page : Nat) : Keeps { page } [] where
  regions _ h := by cases h
  stands _ h := by cases h
  apart := .nil

/-- Code is written behind all that stands in the last region. -/
theorem Keeps.write (h : arena.Keeps items) {last : Region}
    (hlast : arena.regions.getLast? = some last) (hroom : last.hasRoom code = true) :
    Keeps { arena with
        regions := arena.regions.set (arena.regions.length - 1) (last.copy last.free code) }
      (⟨code, ⟨arena.regions.length - 1, last.free⟩⟩ :: items) := by
  have hget : arena.regions[arena.regions.length - 1]? = some last := by
    rw [← List.getLast?_eq_getElem?, hlast]
  have hindex := (List.getElem?_eq_some_iff.mp hget).1
  have hfits : last.free + code.length ≤ last.size := by simpa [Region.hasRoom] using hroom
  have hused := last.used_le_free
  refine ⟨fun region hmem => ?_, fun item hmem => ?_, List.pairwise_cons.mpr ⟨?_, h.apart⟩⟩
  · rcases List.mem_or_eq_of_mem_set hmem with hmem | rfl
    · exact h.regions region hmem
    · obtain ⟨-, hpos, hdvd⟩ := h.regions last (List.mem_of_getElem? hget)
      rw [WholePages, Region.size_copy hfits]
      exact ⟨hfits, hpos, hdvd⟩
  · rcases List.mem_cons.mp hmem with rfl | hmem
    · refine ⟨last.copy last.free code, ?_, dvd_roundUp .., Nat.le_refl _, ?_⟩
      · rw [List.getElem?_set_self hindex]
      · exact Region.prefix_copy (Nat.le_of_add_right_le hfits)
    · obtain ⟨region, hregion, halign, hinside, hcode⟩ := h.stands item hmem
      by_cases hsame : item.place.region = arena.regions.length - 1
      · obtain rfl : last = region := by
          rw [hsame, hget] at hregion
          exact Option.some.inj hregion
        refine ⟨last.copy last.free code, ?_, halign, ?_, ?_⟩
        · rw [hsame, List.getElem?_set_self hindex]
        · simp only [Region.copy]
          omega
        · exact Region.prefix_copy_of_prefix hcode (by omega) (by omega)
      · refine ⟨region, ?_, halign, hinside, hcode⟩
        rw [List.getElem?_set_ne (Ne.symm hsame)]
        exact hregion
  · intro item hmem hsame
    obtain ⟨region, hregion, -, hinside, -⟩ := h.stands item hmem
    obtain rfl : last = region := by
      rw [← hsame, hget] at hregion
      exact Option.some.inj hregion
    exact .inr (by dsimp only; omega)

/-- Code is written to the start of a region that is mapped for it. -/
theorem Keeps.map (h : arena.Keeps items) (hpage : 0 < arena.page) (hcode : code ≠ []) :
    Keeps { arena with
        regions := arena.regions ++
          [(Region.mapped (roundUp code.length arena.page)).copy 0 code] }
      (⟨code, ⟨arena.regions.length, 0⟩⟩ :: items) := by
  have hfits := le_roundUp hpage code.length
  have hsize : (Region.mapped (roundUp code.length arena.page)).size =
      roundUp code.length arena.page := List.length_replicate
  have hpos := List.length_pos_iff.mpr hcode
  refine ⟨fun region hmem => ?_, fun item hmem => ?_, List.pairwise_cons.mpr ⟨?_, h.apart⟩⟩
  · rcases List.mem_append.mp hmem with hmem | hmem
    · exact h.regions region hmem
    · obtain rfl := List.mem_singleton.mp hmem
      rw [WholePages, Region.size_copy (by omega), hsize]
      exact ⟨by simp only [Region.copy]; omega, by omega, dvd_roundUp ..⟩
  · rcases List.mem_cons.mp hmem with rfl | hmem
    · refine ⟨_, List.getElem?_concat_length .., Nat.dvd_zero _, Nat.le_refl _, ?_⟩
      exact Region.prefix_copy (Nat.zero_le _)
    · obtain ⟨region, hregion, hstands⟩ := h.stands item hmem
      refine ⟨region, ?_, hstands⟩
      rw [List.getElem?_append_left (List.getElem?_eq_some_iff.mp hregion).1]
      exact hregion
  · intro item hmem hsame
    obtain ⟨region, hregion, -⟩ := h.stands item hmem
    have hindex := (List.getElem?_eq_some_iff.mp hregion).1
    exact absurd hsame (Nat.ne_of_gt hindex)

/-- Code that is not empty is installed, and all that was installed before stays. -/
theorem Keeps.install (h : arena.Keeps items) (hpage : 0 < arena.page) (hcode : code ≠ []) :
    ∃ place after, arena.install code = .ok (place, after) ∧ after.page = arena.page ∧
      after.Keeps (⟨code, place⟩ :: items) := by
  have hempty : ¬code.isEmpty = true := by simpa using hcode
  simp only [Arena.install, if_neg hempty]
  cases hlast : arena.regions.getLast?.filter (·.hasRoom code) with
  | some last =>
    obtain ⟨hlast, hroom⟩ := Option.filter_eq_some_iff.mp hlast
    exact ⟨_, _, rfl, rfl, h.write hlast hroom⟩
  | none => exact ⟨_, _, rfl, rfl, h.map hpage hcode⟩

/-! ### Addresses -/

/-- The system maps the regions at the addresses `base`: at multiples of the page size, each apart
from those that it mapped before. -/
structure MappedAt (arena : Arena) (base : Nat → Nat) : Prop where
  aligned : ∀ i < arena.regions.length, arena.page ∣ base i
  apart : ∀ i j region other, i < j → arena.regions[i]? = some region →
    arena.regions[j]? = some other → base i + region.size ≤ base j ∨ base j + other.size ≤ base i

variable {base : Nat → Nat} {item other : Installed}

/-- Different regions do not overlap. -/
theorem MappedAt.apart_of_ne (h : arena.MappedAt base) {i j : Nat} {region other : Region}
    (hne : i ≠ j) (hregion : arena.regions[i]? = some region)
    (hother : arena.regions[j]? = some other) :
    base i + region.size ≤ base j ∨ base j + other.size ≤ base i := by
  rcases Nat.lt_or_gt_of_ne hne with hlt | hlt
  · exact h.apart i j region other hlt hregion hother
  · exact (h.apart j i other region hlt hother hregion).symm

theorem Keeps.inside (h : arena.Keeps items) (hmem : item ∈ items) :
    ∃ region, arena.regions[item.place.region]? = some region ∧
      item.place.offset + item.code.length ≤ region.size := by
  obtain ⟨region, hregion, -, hinside, -⟩ := h.stands item hmem
  have hused := (h.regions region (List.mem_of_getElem? hregion)).1
  exact ⟨region, hregion, by omega⟩

theorem Keeps.address_aligned (h : arena.Keeps items) (halign : alignment ∣ arena.page)
    (hmapped : arena.MappedAt base) (hmem : item ∈ items) :
    alignment ∣ item.address base := by
  obtain ⟨region, hregion, hoffset, -⟩ := h.stands item hmem
  have hindex := (List.getElem?_eq_some_iff.mp hregion).1
  exact Nat.dvd_add (Nat.dvd_trans halign (hmapped.aligned _ hindex)) hoffset

/-- Code that does not share a byte has ranges of addresses that do not overlap. -/
theorem Keeps.address_apart (h : arena.Keeps items) (hmapped : arena.MappedAt base)
    (hitem : item ∈ items) (hother : other ∈ items) (hapart : item.Apart other) :
    item.address base + item.code.length ≤ other.address base ∨
      other.address base + other.code.length ≤ item.address base := by
  obtain ⟨region, hregion, hinside⟩ := h.inside hitem
  obtain ⟨region', hregion', hinside'⟩ := h.inside hother
  simp only [Installed.address]
  by_cases hsame : item.place.region = other.place.region
  · have hoffsets := hapart hsame
    rw [hsame]
    omega
  · have hregions := hmapped.apart_of_ne hsame hregion hregion'
    omega

/-! ### Any installations -/

/-- An arena and all that was installed in it, the last in front. -/
structure Filled where
  arena : Arena
  items : List Installed := []

/-- Tries to install code, and leaves the arena as it is if that fails. -/
def Filled.install (filled : Filled) (code : List UInt8) : Filled :=
  match filled.arena.install code with
  | .ok (place, arena) => ⟨arena, ⟨code, place⟩ :: filled.items⟩
  | .error _ => filled

theorem install_nil (arena : Arena) : arena.install [] = .error .emptyProgram := rfl

theorem Keeps.foldl_install {filled : Filled} (h : filled.arena.Keeps filled.items)
    (hpage : 0 < filled.arena.page) (codes : List (List UInt8)) :
    let filled' := codes.foldl Filled.install filled
    filled'.arena.page = filled.arena.page ∧ filled'.arena.Keeps filled'.items := by
  induction codes generalizing filled with
  | nil => exact ⟨rfl, h⟩
  | cons code codes ih =>
    by_cases hcode : code = []
    · subst hcode
      exact ih h hpage
    · obtain ⟨place, after, hinstall, hsame, hkeeps⟩ := h.install hpage hcode
      have hfilled : filled.install code = ⟨after, ⟨code, place⟩ :: filled.items⟩ := by
        rw [Filled.install, hinstall]
      rw [List.foldl_cons, hfilled, ← hsame]
      exact ih hkeeps (hsame ▸ hpage)

/-- After any installations, each region has whole pages of which the used part is inside, and empty
code is refused. Other code gets a range of addresses that is aligned, lies inside one region and
does not overlap the range of any code that was installed before; and all code stands where it was
installed. -/
theorem install_after_installs (page : Nat) (hpage : 0 < page) (halign : alignment ∣ page)
    (codes : List (List UInt8)) :
    let filled := codes.foldl Filled.install { arena := { page } }
    (∀ region ∈ filled.arena.regions,
      region.used ≤ region.size ∧ 0 < region.size ∧ page ∣ region.size) ∧
    filled.arena.install [] = .error .emptyProgram ∧ filled.install [] = filled ∧
    ∀ code ≠ [], ∃ place after, filled.arena.install code = .ok (place, after) ∧
      (∀ item ∈ ⟨code, place⟩ :: filled.items, item.Stands after) ∧
      (∃ region, after.regions[place.region]? = some region ∧
        place.offset + code.length ≤ region.size) ∧
      ∀ base, after.MappedAt base →
        alignment ∣ Installed.address base ⟨code, place⟩ ∧
        ∀ item ∈ filled.items,
          Installed.address base ⟨code, place⟩ + code.length ≤ item.address base ∨
            item.address base + item.code.length ≤ Installed.address base ⟨code, place⟩ := by
  intro filled
  have hstart : Keeps { page } [] := keeps_nil page
  obtain ⟨hsame, hkeeps⟩ : filled.arena.page = page ∧ filled.arena.Keeps filled.items :=
    @Keeps.foldl_install ⟨{ page }, []⟩ hstart hpage codes
  refine ⟨fun region hmem => hsame ▸ hkeeps.regions region hmem, install_nil _, rfl, ?_⟩
  intro code hcode
  obtain ⟨place, after, hinstall, hpages, hafter⟩ := hkeeps.install (hsame ▸ hpage) hcode
  have hnew : ⟨code, place⟩ ∈ (⟨code, place⟩ :: filled.items : List Installed) :=
    List.mem_cons_self
  refine ⟨place, after, hinstall, hafter.stands, hafter.inside hnew, fun base hmapped => ?_⟩
  refine ⟨hafter.address_aligned (hpages ▸ hsame ▸ halign) hmapped hnew, fun item hmem => ?_⟩
  exact hafter.address_apart hmapped hnew (List.mem_cons_of_mem _ hmem)
    ((List.pairwise_cons.mp hafter.apart).1 item hmem)

theorem install_after_installs_crossing :
    let nops := List.replicate 50 (0x90 : UInt8)
    let filled := [nops, [0xC3], nops ++ nops].foldl Filled.install { arena := { page := 64 } }
    ∃ after, filled.arena.install [0xC3] = .ok (⟨2, 112⟩, after) ∧
      after.MappedAt (fun i => 128 * i) ∧
      alignment ∣ Installed.address (fun i => 128 * i) ⟨[0xC3], ⟨2, 112⟩⟩ ∧
      ∀ item ∈ filled.items, item.Stands after := by
  intro nops filled
  obtain ⟨-, -, -, hinstall⟩ := install_after_installs 64 (by decide) (by decide)
    [nops, [0xC3], nops ++ nops]
  obtain ⟨place, after, hok, hstands, -, haddress⟩ := hinstall [0xC3] (by decide)
  have hsizes : (filled.arena.install [0xC3]).map
      (fun (place, after) => (place, after.page, after.regions.map Region.size)) =
        .ok (⟨2, 112⟩, 64, [64, 64, 128]) := by decide +kernel
  rw [show filled.arena.install [0xC3] = .ok (place, after) from hok] at hsizes
  obtain ⟨rfl, hpage, hregions⟩ : place = ⟨2, 112⟩ ∧ after.page = 64 ∧
      after.regions.map Region.size = [64, 64, 128] := by
    simpa only [Except.map, Except.ok.injEq, Prod.mk.injEq] using hsizes
  have hsize : ∀ region ∈ after.regions, region.size ≤ 128 := by
    have hall : ∀ size ∈ after.regions.map Region.size, size ≤ 128 := by
      rw [hregions]
      decide
    exact fun region hmem => hall _ (List.mem_map_of_mem hmem)
  have hmapped : after.MappedAt (fun i => 128 * i) := by
    refine ⟨fun i _ => ?_, fun i j region other hlt hregion _ => .inl ?_⟩
    · rw [hpage]
      exact Nat.dvd_mul_right_of_dvd (by decide) i
    · have := hsize region (List.mem_of_getElem? hregion)
      omega
  exact ⟨after, hok, hmapped, (haddress _ hmapped).1,
    fun item hmem => hstands item (List.mem_cons_of_mem _ hmem)⟩

end Arena

end PluralForms.Native
