import Osproj.Fs.Lemmas.Resolve

/-!
This module contains the exact condition under which `get_fs_type` stays inside the block it allocates for a path. It
uses what `kmalloc` returns without a look at it. All it stores itself, it stores before `kfree`.
-/

namespace Osproj

open Str ListHeap

namespace Vfs

variable {v : Vfs} {ms : List Mount} {ps ws : List (BitVec 8)} {kmalloc : Nat → Nat} {path fuel : Nat}

/--
The size `kmalloc` is asked for.
-/
def requested (ws ps : List (BitVec 8)) : Nat := ((lookedUp ws ps).length + 1) % 0x100000000

/--
What must hold of a call: it stores to every byte of the block and to no other, and fails without a store when there
is no block.
-/
def FillsBlock (v : Vfs) (fuel : Nat) (kmalloc : Nat → Nat) (ws : List (BitVec 8)) (path : Nat) (ps : List (BitVec 8))
    : Prop :=
  ∃ status baked v', v.findMount fuel kmalloc path = some (status, baked, v')
    ∧ if kmalloc (requested ws ps) = 0 then
        status ≠ 0 ∧ v'.mem = v.mem ∧ v'.mpSwap = 0
      else
        Memory.StoresExactly v.mem v'.mem
          (fun a => kmalloc (requested ws ps) ≤ a ∧ a < kmalloc (requested ws ps) + requested ws ps)

/--
The strings are in memory, and a block that `kmalloc` returns is free.
-/
structure Request (v : Vfs) (ms : List Mount) (kmalloc : Nat → Nat) (ws : List (BitVec 8)) (path : Nat)
    (ps : List (BitVec 8)) : Prop where
  pwd : StringAt v.mem v.pwd ws
  pwd_ne_zero : v.pwd ≠ 0
  pwd_fits : v.pwd + ws.length < 0x100000000
  string : StringAt v.mem path ps
  ne_zero : path ≠ 0
  fits : path + ps.length < 0x100000000
  block (h : kmalloc (requested ws ps) ≠ 0) : v.Block ms (kmalloc (requested ws ps)) (requested ws ps)
  clear_pwd (h : kmalloc (requested ws ps) ≠ 0) : Clear (kmalloc (requested ws ps)) (requested ws ps) v.pwd ws
  clear (h : kmalloc (requested ws ps) ≠ 0) : Clear (kmalloc (requested ws ps)) (requested ws ps) path ps

section Copy

theorem Request.bufSize_eq (h : v.Request ms kmalloc ws path ps) : v.bufSize path = requested ws ps := by
  have hpwd := h.pwd_ne_zero
  have hpwd' := h.pwd_fits
  have hne := h.ne_zero
  have hfits := h.fits
  rw [bufSize, requested, lookedUp]
  by_cases habs : ps.head? = some 0x2F
  . have hslash := (load_eq_slash_iff h.string).mpr habs
    rw [if_neg (not_not.mpr hslash), strlen_eq h.string (by omega), if_pos habs]
  . have hslash := mt (load_eq_slash_iff h.string).mp habs
    rw [if_pos hslash, strlen_eq h.pwd (by omega), strlen_eq h.string (by omega), if_neg habs, List.length_append]

theorem Request.copyPath_eq (h : v.Request ms kmalloc ws path ps)
    : v.copyPath kmalloc path
        =
      (if ps.head? = some 0x2F then
        strcpy v.mem (kmalloc (requested ws ps)) path
      else
        (strcpy v.mem (kmalloc (requested ws ps)) v.pwd).bind fun mem =>
          strcat mem (kmalloc (requested ws ps)) path).map fun mem => (kmalloc (requested ws ps), mem) := by
  rw [copyPath, h.bufSize_eq]
  generalize kmalloc (requested ws ps) = buf
  by_cases habs : ps.head? = some 0x2F
  . have hslash := (load_eq_slash_iff h.string).mpr habs
    simp only [if_neg (not_not.mpr hslash), if_pos habs]
    cases strcpy v.mem buf path <;> rfl
  . have hslash := mt (load_eq_slash_iff h.string).mp habs
    simp only [if_pos hslash, if_neg habs]
    cases strcpy v.mem buf v.pwd with
    | none => rfl
    | some mem =>
      rw [Option.bind_eq_bind, Option.bind_some, Option.bind_some]
      cases strcat mem buf path <;> rfl

/--
Without a block the copy goes through `NULL`.
-/
theorem Request.copyPath_null (h : v.Request ms kmalloc ws path ps) (hnull : kmalloc (requested ws ps) = 0)
    : v.copyPath kmalloc path = none := by
  rw [h.copyPath_eq, hnull]
  split <;> rfl

theorem Request.strcpy_pwd (h : v.Request ms kmalloc ws path ps) (hne : kmalloc (requested ws ps) ≠ 0)
    : strcpy v.mem (kmalloc (requested ws ps)) v.pwd
        =
      some (v.mem.storeBytes (kmalloc (requested ws ps)) (ws ++ [0])) := by
  have hfits := h.pwd_fits
  have hclear := h.clear_pwd hne
  unfold Clear at hclear
  exact strcpy_eq h.pwd hne (by omega) (by omega)

/--
The copy fills the block when the size did not wrap.
-/
theorem Request.copyPath_fills (h : v.Request ms kmalloc ws path ps) (hne : kmalloc (requested ws ps) ≠ 0)
    (hlength : (lookedUp ws ps).length + 1 < 0x100000000) {buf : Nat} {mem : Memory}
    (hcopy : v.copyPath kmalloc path = some (buf, mem))
    : Memory.StoresExactly v.mem mem
        (fun a => kmalloc (requested ws ps) ≤ a ∧ a < kmalloc (requested ws ps) + requested ws ps) := by
  have hsize : requested ws ps = (lookedUp ws ps).length + 1 := Nat.mod_eq_of_lt hlength
  have hfits := h.fits
  have hclear := h.clear hne
  have hclearPwd := h.clear_pwd hne
  rw [h.copyPath_eq] at hcopy
  generalize kmalloc (requested ws ps) = b at hne hclear hclearPwd hcopy ⊢
  unfold Clear at hclear hclearPwd
  by_cases habs : ps.head? = some 0x2F
  . rw [lookedUp, if_pos habs] at hsize
    rw [if_pos habs, strcpy_eq h.string hne (by omega) (by omega), Option.map_some, Option.some.injEq,
      Prod.mk.injEq] at hcopy
    rw [← hcopy.2, hsize]
    have hstores := Memory.StoresExactly.storeBytes v.mem b (ps ++ [0])
    rw [List.length_append, List.length_singleton] at hstores
    exact hstores
  . rw [lookedUp, if_neg habs, List.length_append] at hsize hlength
    obtain ⟨m₁, m₂, hcpy, hcat, -, -, hstores⟩ :=
      strcpy_strcat h.pwd h.string hne (by omega) (by omega) (by omega)
    rw [if_neg habs, hcpy, Option.bind_some, hcat, Option.map_some, Option.some.injEq, Prod.mk.injEq] at hcopy
    rw [← hcopy.2, hsize]
    refine hstores.congr (fun a => ?_)
    omega

/--
When the size wrapped, the copy of the working directory alone is longer than the block.
-/
theorem Request.copyPath_overruns (h : v.Request ms kmalloc ws path ps) (hne : kmalloc (requested ws ps) ≠ 0)
    (hlength : ¬ (lookedUp ws ps).length + 1 < 0x100000000) {buf : Nat} {mem : Memory}
    (hcopy : v.copyPath kmalloc path = some (buf, mem))
    : ¬ Memory.StoresIn v.mem mem
        (fun a => kmalloc (requested ws ps) ≤ a ∧ a < kmalloc (requested ws ps) + requested ws ps) := by
  intro hstores
  have hpath := h.ne_zero
  have hfits := h.fits
  have hpwd := h.pwd_fits
  have habs : ps.head? ≠ some 0x2F := by
    intro habs
    rw [lookedUp, if_pos habs] at hlength
    omega
  have hsize : requested ws ps = (ws.length + ps.length + 1) % 0x100000000 := by
    rw [requested, lookedUp, if_neg habs, List.length_append]
  rw [lookedUp, if_neg habs, List.length_append] at hlength
  rw [h.copyPath_eq, if_neg habs, h.strcpy_pwd hne, Option.bind_some, Option.map_eq_some_iff] at hcopy
  obtain ⟨mem', hcat, heq⟩ := hcopy
  rw [Prod.mk.injEq] at heq
  rw [heq.2] at hcat
  have hlast := (Memory.StoresExactly.storeBytes v.mem (kmalloc (requested ws ps)) (ws ++ [0])).subset
    (strcat_storesIn hcat) hstores (a := kmalloc (requested ws ps) + ws.length)
  rw [List.length_append, List.length_singleton] at hlast
  have hin := hlast ⟨by omega, by omega⟩
  omega

end Copy

theorem mem_findMount {status : Int} {baked : Nat} {v' : Vfs}
    (h : v.findMount fuel kmalloc path = some (status, baked, v'))
    : ∃ buf, v.copyPath kmalloc path = some (buf, v'.mem) := by
  obtain ⟨⟨buf, mem⟩, hcopy, h⟩ := Option.bind_eq_some_iff.mp h
  obtain ⟨v₁, hiter, h⟩ := Option.bind_eq_some_iff.mp h
  have hmem : v₁.mem = mem := by
    refine @listIter_invariant _ _ _ getFsTypeCallback (fun v => v.mem = mem) ?_ fuel _ v₁ rfl hiter
    intro s a r s' hs hcall
    rw [getFsTypeCallback] at hcall
    split at hcall
    . split at hcall
      . cases hcall
        exact hs
      . cases hcall
        exact hs
    . cases hcall
      exact hs
  refine ⟨buf, ?_⟩
  have hv' : v'.mem = mem := by
    split at h
    . cases h
      exact hmem
    . cases h
      exact hmem
  rw [hv']
  exact hcopy

/--
The condition under which it does: there is a block, and the size of the copy did not wrap.
-/
def BlockOk (kmalloc : Nat → Nat) (ws ps : List (BitVec 8)) : Prop :=
  kmalloc (requested ws ps) ≠ 0 ∧ (lookedUp ws ps).length + 1 < 0x100000000

theorem Request.findMount_null (h : v.Request ms kmalloc ws path ps) (hnull : kmalloc (requested ws ps) = 0)
    : v.findMount fuel kmalloc path = none := by
  have hcopy : ({ v with mpSwap := 0, mostLong := 0 } : Vfs).copyPath kmalloc path = none := h.copyPath_null hnull
  rw [findMount]
  simp only [hcopy]
  rfl

theorem fillsBlock_iff (hmounted : v.Mounted ms) (hfuel : ms.length ≤ fuel) (h : v.Request ms kmalloc ws path ps)
    : v.FillsBlock fuel kmalloc ws path ps ↔ BlockOk kmalloc ws ps := by
  unfold FillsBlock BlockOk
  by_cases hnull : kmalloc (requested ws ps) = 0
  . rw [h.findMount_null hnull]
    exact iff_of_false (by simp) (fun hok => hok.1 hnull)
  . by_cases hlength : (lookedUp ws ps).length + 1 < 0x100000000
    . apply iff_of_true _ ⟨hnull, hlength⟩
      have hsize : requested ws ps = (lookedUp ws ps).length + 1 := Nat.mod_eq_of_lt hlength
      have hlookup : v.Lookup ms kmalloc ws path ps := by
        have hblock := h.block hnull
        have hpwd := h.clear_pwd hnull
        have hclear := h.clear hnull
        rw [hsize] at hblock hpwd hclear
        exact ⟨h.pwd, h.string, h.fits, hblock, hpwd, hclear⟩
      obtain ⟨mem, hprepared⟩ := prepared_lookup hmounted.listed hlookup
      have hfind := findMount_eq hmounted.listed hfuel hprepared.copyPath_eq hprepared.copied.copy hprepared.mounts
      obtain ⟨buf, hcopy⟩ := mem_findMount hfind
      refine ⟨_, _, _, hfind, ?_⟩
      rw [if_neg hnull]
      exact h.copyPath_fills hnull hlength hcopy
    . apply iff_of_false _ (fun hok => hlength hok.2)
      rintro ⟨status, baked, v', hfind, hstores⟩
      obtain ⟨buf, hcopy⟩ := mem_findMount hfind
      rw [if_neg hnull] at hstores
      exact h.copyPath_overruns hnull hlength hcopy hstores.storesIn

section Slab

open Slab

theorem slabKmalloc_long (s : SlabMem) (fuel page : Nat) {size : Nat} (hsize : size > SLAB_SIZE / 2)
    : (slabKmalloc s fuel page size).1 = 0 := by
  rw [slabKmalloc, SlabMem.kmalloc, SlabMem.kmallocFlags, SlabMem.kmemFor, if_pos hsize]
  rfl

/--
The slab allocator has no block for a path longer than half a slab.
-/
theorem Request.getFsType_long {s : SlabMem} {n page : Nat}
    (h : v.Request ms (fun size => (slabKmalloc s n page size).1) ws path ps) (fuel slabs : Nat)
    (hsize : requested ws ps > SLAB_SIZE / 2)
    : v.findMount fuel (fun size => (slabKmalloc s n page size).1) path = none
        ∧ v.getFsType fuel slabs (slabKmalloc s n page) path = none := by
  have hnull : v.findMount fuel (fun size => (slabKmalloc s n page size).1) path = none :=
    h.findMount_null (slabKmalloc_long s n page hsize)
  refine ⟨hnull, ?_⟩
  rw [getFsType, hnull]
  rfl

end Slab

section Example

theorem request_exampleVfs
    : exampleVfs.Request exampleMounts (fun size => (exampleKmalloc size).1) [0x2F] 0xC0108041 tty := by
  have hsize : requested [0x2F] tty ∈ [9, 10, 12] := by decide
  exact ⟨by decide +kernel, by decide, by decide, by decide +kernel, by decide, by decide,
    fun _ => block_exampleVfs hsize, fun _ => clear_exampleVfs hsize (by decide),
    fun _ => clear_exampleVfs hsize (by decide)⟩

def longPath : List (BitVec 8) := 0x2F :: List.replicate 0x800 0x61

/--
The path is in memory, behind those of the mount points.
-/
def longVfs : Vfs := { exampleVfs with mem := exampleVfs.mem.storeBytes 0xC0109000 (longPath ++ [0]) }

theorem requested_longPath : requested [0x2F] longPath = 0x802 := by
  rw [requested, lookedUp, longPath, if_pos (by rfl), List.length_cons, List.length_replicate]

theorem request_longVfs (s : SlabMem) (n page : Nat)
    : longVfs.Request exampleMounts (fun size => (slabKmalloc s n page size).1) [0x2F] 0xC0109000 longPath := by
  have hnull : (slabKmalloc s n page (requested [0x2F] longPath)).1 = 0 :=
    slabKmalloc_long _ _ _ (by rw [requested_longPath]; decide)
  have hnotMem : 0 ∉ longPath := by
    rw [longPath, List.mem_cons, List.mem_replicate]
    decide
  have hlength : 0xC0109000 + longPath.length < 0x100000000 := by
    rw [longPath, List.length_cons, List.length_replicate]
    decide
  have hmem : longVfs.mem = exampleVfs.mem.storeBytes 0xC0109000 (longPath ++ [0]) := by
    rw [longVfs]
  have hstring : StringAt longVfs.mem 0xC0109000 longPath := by
    rw [hmem]
    exact stringAt_storeBytes hnotMem
  refine ⟨?_, by decide, by decide, hstring, by decide, hlength, fun h => absurd hnull h, fun h => absurd hnull h,
    fun h => absurd hnull h⟩
  rw [hmem]
  apply StringAt.storeBytes _ (Or.inl (by decide))
  decide +kernel

end Example

/--
"dev/tty0" in the working directory "/".
-/
theorem fillsBlock_iff_tty
    : exampleVfs.FillsBlock 2 (fun size => (exampleKmalloc size).1) [0x2F] 0xC0108041 tty := by
  apply (fillsBlock_iff mounted_exampleVfs (by decide) request_exampleVfs).2
  exact ⟨by decide +kernel, by decide⟩

/--
A path of 2049 bytes.
-/
theorem not_fillsBlock
    : ¬ longVfs.FillsBlock 2 (fun size => (slabKmalloc exampleSlab 13 0xC0205000 size).1) [0x2F] 0xC0109000
          longPath := by
  rintro ⟨status, baked, v', hfind, -⟩
  have hlong := (request_longVfs exampleSlab 13 0xC0205000).getFsType_long 2 1
    (by rw [requested_longPath]; decide)
  rw [hlong.1] at hfind
  cases hfind

end Vfs
end Osproj
