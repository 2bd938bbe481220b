import Osproj.Fs.Impl.Calls
import Osproj.Fs.Lemmas.Resolve
import Osproj.Lib.Lemmas.BstDelete
import Osproj.Lib.Lemmas.BstInsert

/-!
This module contains the way of a call to the driver: a path leads to the driver of the longest mount point that is a
prefix of it, a file descriptor to the one that is recorded for it.
-/

namespace Osproj

open Str Bst ListHeap

namespace FileSystem

/--
A tree that was filled before any rotation was due.
-/
structure Filled (fuel : Nat) (t : Bst) (os : List Insertion) : Prop where
  insertAll_eq : insertAll fuel os = some t
  fresh : FreshAddrs os
  unrotated : Unrotated os
  length_lt : os.length < fuel
  data_ne_zero (o : Insertion) (ho : o ∈ os) : o.data ≠ 0

/--
What was inserted first for an identifier.
-/
def first (os : List Insertion) (id : Int) : Option Insertion := os.find? (fun o => o.id = key id)

theorem Filled.search {fuel : Nat} {t : Bst} {os : List Insertion} (h : Filled fuel t os) (id : Int)
    : t.bstSearch fuel t.root (key id) = some ((first os id).elim 0 Insertion.data) := by
  obtain ⟨t', hrun, hsearch⟩ := keepsAll_of_unrotated h.fresh h.length_lt h.unrotated os (List.prefix_refl os)
  rw [h.insertAll_eq, Option.some.injEq] at hrun
  subst hrun
  exact hsearch (key id)

theorem Filled.first_data_ne_zero {fuel : Nat} {t : Bst} {os : List Insertion} (h : Filled fuel t os) {id : Int}
    {o : Insertion} (ho : first os id = some o)
    : o.data ≠ 0 :=
  h.data_ne_zero o (List.mem_of_find?_eq_some ho)

/--
The tree is as `fds` and `fs_driver_head` are before the first insertion.
-/
theorem Filled.eq_nil {fuel : Nat} {t : Bst} {os : List Insertion} (h : Filled fuel t os) (hroot : t.root = 0)
    : os = [] := by
  obtain ⟨t', hrun, hsearch⟩ := keepsAll_of_unrotated h.fresh h.length_lt h.unrotated os (List.prefix_refl os)
  rw [h.insertAll_eq, Option.some.injEq] at hrun
  subst hrun
  obtain ⟨fuel, rfl⟩ : ∃ k, fuel = k + 1 := ⟨fuel - 1, by have := h.length_lt; omega⟩
  cases os with
  | nil => rfl
  | cons o os =>
    have hfound := hsearch o.id
    have hdata := h.data_ne_zero o (List.mem_cons_self ..)
    simp only [bstSearch, bstSearch.loop, hroot, if_true, List.find?_cons, decide_true, Option.elim_some] at hfound
    simp at hfound
    exact absurd hfound.symm hdata

/--
What the calls look up: `ms` is mounted, the drivers `ds` and the file descriptors `os` were inserted.
-/
structure Tables (s : FileSystem) (fuel : Nat) (ms : List Mount) (ds os : List Insertion) : Prop where
  listed : s.vfs.Listed ms
  length_le : ms.length ≤ fuel
  drivers : Filled fuel s.fsDrivers ds
  fds : Filled fuel s.fds os

/--
The trees of `s'` are those of `s`, and so are their records.
-/
structure SameTables (s s' : FileSystem) (ds : List Insertion) : Prop where
  drivers : s'.fsDrivers = s.fsDrivers
  driver (o : Insertion) (ho : o ∈ ds) : s'.fsDriver o.data = s.fsDriver o.data
  fds : s'.fds = s.fds
  fd (p : Nat) (n : BstNode) (hp : s.fds.node p = some n) : s'.fd n.data = s.fd n.data

section Spared

variable {s : FileSystem} {ms : List Mount} {ds : List Insertion} {stores : List WordStore} {path : Nat}
  {ps : List (BitVec 8)}

/--
The stores hit nothing that the calls look up, nor the string `ps` at `path`.
-/
structure Spared (s : FileSystem) (ms : List Mount) (ds : List Insertion) (stores : List WordStore) (path : Nat)
    (ps : List (BitVec 8)) : Prop where
  string : StringAt (s.vfs.mem.storeWords stores) path ps
  mount (m : Mount) (hm : m ∈ ms) : StringAt (s.vfs.mem.storeWords stores) (s.vfs.mountPoint m.point).path m.path
  node (m : Mount) (hm : m ∈ ms) : WordStore.Miss stores m.node 12
  point (m : Mount) (hm : m ∈ ms) : WordStore.Miss stores m.point 12
  drivers (p : Nat) (hp : s.fsDrivers.node p ≠ none) : WordStore.Miss stores p 24
  driver (o : Insertion) (ho : o ∈ ds) : WordStore.Miss stores o.data 92
  fds (p : Nat) (hp : s.fds.node p ≠ none) : WordStore.Miss stores p 24
  fd (p : Nat) (n : BstNode) (hp : s.fds.node p = some n) : WordStore.Miss stores n.data 12

theorem storeWords_eq {t : Bst} (h : ∀ p, t.node p ≠ none → WordStore.Miss stores p 24) : t.storeWords stores = t := by
  rw [Bst.storeWords]
  have hnode : (fun p => (t.node p).map fun n => n.storeWords stores p) = t.node := by
    funext p
    cases hn : t.node p with
    | none => rfl
    | some n => rw [Option.map_some, storeWords_of_miss n (h p (by simp [hn]))]
  rw [hnode]

theorem FsDriver.storeWords_eq {d : FsDriver} {p : Nat} (h : WordStore.Miss stores p 92)
    : d.storeWords stores p = d := by
  have hfield {k : Nat} (hk : k ≤ 88) := WordStore.applyAll_of_miss (h.mono (show p ≤ p + k by omega) (by omega))
  rw [FsDriver.storeWords, hfield (k := 28) (by omega), hfield (k := 52) (by omega), hfield (k := 60) (by omega),
    hfield (k := 68) (by omega), hfield (k := 84) (by omega)]

theorem Fd.storeWords_eq {f : Fd} {p : Nat} (h : WordStore.Miss stores p 12) : f.storeWords stores p = f := by
  rw [Fd.storeWords, WordStore.applyInt_of_miss (h.mono (by omega) (by omega)),
    WordStore.applyInt_of_miss (h.mono (by omega) (by omega))]

theorem Spared.sameTables (h : s.Spared ms ds stores path ps) (vfs : Vfs) (slab : SlabMem)
    : s.SameTables { s.storeWords stores with vfs, slab } ds :=
  ⟨storeWords_eq h.drivers, fun o ho => FsDriver.storeWords_eq (h.driver o ho), storeWords_eq h.fds,
    fun p n hp => Fd.storeWords_eq (h.fd p n hp)⟩

end Spared

section Forward

variable {function : Nat → FsCall → FileSystem → Option (Int × FileSystem)} {s s' t t' : FileSystem} {fuel : Nat}
  {ms : List Mount} {ds os : List Insertion} {page path : Nat} {ws ps : List (BitVec 8)}

/--
The driver of a type gets the call, if it has a function for it.
-/
def forwarded (function : Nat → FsCall → FileSystem → Option (Int × FileSystem)) (s : FileSystem) (ds : List Insertion)
    (type : Int) (ptr : FsPtrs → Nat) (call : FsCall) : Option (Int × FileSystem) :=
  match first ds type with
  | none => none
  | some o =>
    let f := ptr (s.fsDriver o.data).ptrs
    if f = 0 then some (-EPERM, s) else function f call s

theorem forward_eq (h : Filled fuel s.fsDrivers ds) (type : Int) (ptr : FsPtrs → Nat) (call : FsCall)
    : s.forward function fuel type ptr call = forwarded function s ds type ptr call := by
  rw [forward, h.search, Option.bind_eq_bind, Option.bind_some, forwarded]
  cases hfirst : first ds type with
  | none => rfl
  | some o => exact if_neg (h.first_data_ne_zero hfirst)

/--
What a call with a file descriptor comes to.
-/
def fdAnswer (function : Nat → FsCall → FileSystem → Option (Int × FileSystem)) (s : FileSystem)
    (ds os : List Insertion) (fd : Int) (ptr : FsPtrs → Nat) (call : Int → FsCall) : Option (Int × FileSystem) :=
  match first os fd with
  | none => some (-ENFILE, s)
  | some o => forwarded function s ds (s.fd o.data).driverId ptr (call (s.fd o.data).internalInode)

/--
What a call with the path at `path` comes to, if `fs` was looked up for it. `mem` holds the strings while it is.
-/
def pathAnswer (function : Nat → FsCall → FileSystem → Option (Int × FileSystem)) (s : FileSystem) (ms : List Mount)
    (ds : List Insertion) (mem : Memory) (path : Nat) (fs : List (BitVec 8)) (ptr : FsPtrs → Nat) (call : Nat → FsCall)
    : Option (Int × FileSystem) :=
  match Vfs.select ms fs with
  | none => some (-ENOENT, s)
  | some m => forwarded function s ds m.driverId ptr (call (Vfs.bakedAt mem path m.path.length))

theorem byFd_eq (function : Nat → FsCall → FileSystem → Option (Int × FileSystem)) (h : s.Tables fuel ms ds os)
    (fd : Int) (ptr : FsPtrs → Nat) (call : Int → FsCall)
    : s.byFd function fuel fd ptr call = fdAnswer function s ds os fd ptr call := by
  rw [byFd, getFdInfo, h.fds.search, Option.bind_eq_bind, Option.bind_eq_bind, Option.bind_some, fdAnswer]
  cases hfirst : first os fd with
  | none => rfl
  | some o =>
    have hne : ¬ (some o).elim 0 Insertion.data = 0 := h.fds.first_data_ne_zero hfirst
    rw [if_neg hne]
    exact forward_eq h.drivers _ ptr _

/--
A path that can be looked up: `kmalloc` finds room for the copy of the string, and `kfree` of the copy comes back and
hits nothing that is looked up.
-/
structure PathOk (s : FileSystem) (fuel : Nat) (ms : List Mount) (ds : List Insertion) (page path : Nat)
    (ws ps : List (BitVec 8)) (block : Nat × SlabMem) (slab : SlabMem) : Prop where
  kmalloc_eq : s.slab.kmalloc fuel (s.vfs.bufSize path) page = some block
  lookup : s.vfs.Lookup ms (fun _ => block.1) ws path ps
  kfree_eq : block.2.kfree fuel block.1 = some slab
  spared : s.Spared ms ds (block.2.kfreeStores fuel block.1) path ps

theorem listed_storeWords {v : Vfs} {stores : List WordStore} (h : v.Listed ms)
    (hnode : ∀ m ∈ ms, WordStore.Miss stores m.node 12) (hpoint : ∀ m ∈ ms, WordStore.Miss stores m.point 12)
    (hpath : ∀ m ∈ ms, StringAt (v.mem.storeWords stores) (v.mountPoint m.point).path m.path)
    : (v.storeWords stores).Listed ms := by
  have hcell {a : Nat} (ha : WordStore.Miss stores a 12) : (v.list.storeWords stores).cell a = v.list.cell a := by
    simp only [ListHeap.storeWords]
    rw [WordStore.applyAll_of_miss (ha.mono (by omega) (by omega)),
      WordStore.applyAll_of_miss (ha.mono (by omega) (by omega)),
      WordStore.applyAll_of_miss (ha.mono (by omega) (by omega))]
  have hrecord (m : Mount) (hm : m ∈ ms)
      : (v.mountPoint m.point).storeWords stores m.point = v.mountPoint m.point := by
    have hmiss := hpoint m hm
    rw [MountPoint.storeWords, WordStore.applyAll_of_miss (hmiss.mono (by omega) (by omega)),
      WordStore.applyAll_of_miss (hmiss.mono (by omega) (by omega)),
      WordStore.applyInt_of_miss (hmiss.mono (by omega) (by omega)), BitVec.ofNat_toNat, BitVec.setWidth_eq]
  refine ⟨h.head_eq, ?_, ?_, ?_⟩
  . apply SameLinks.ring _ h.ring
    intro a ha
    obtain ⟨m, hm, rfl⟩ := List.mem_map.mp ha
    simp only [Vfs.storeWords, hcell (hnode m (mem_visitOrder.mp hm)), and_self]
  . intro m hm
    simp only [Vfs.storeWords, hcell (hnode m hm)]
    exact h.data m hm
  . intro m hm
    obtain ⟨hne, -, hlen, hdriver, habs⟩ := h.mountAt m hm
    refine ⟨hne, ?_, ?_, ?_, habs⟩
    . simp only [Vfs.storeWords, hrecord m hm]
      exact hpath m hm
    . simp only [Vfs.storeWords, hrecord m hm]
      exact hlen
    . simp only [Vfs.storeWords, hrecord m hm]
      exact hdriver

/--
A call with a path is answered by what is mounted, in a state `s'` with the same tables.
-/
def PathAnswered (function : Nat → FsCall → FileSystem → Option (Int × FileSystem)) (s : FileSystem) (fuel : Nat)
    (ms : List Mount) (ds os : List Insertion) (page path : Nat) (ptr : FsPtrs → Nat) (call : Nat → FsCall)
    (result : Option (Int × FileSystem)) : Prop :=
  ∃ ws ps block slab mem s', s.PathOk fuel ms ds page path ws ps block slab
    ∧ StringAt mem path ps ∧ StringAt s'.vfs.mem path ps
    ∧ s'.Tables fuel ms ds os ∧ s.SameTables s' ds
    ∧ result = pathAnswer function s' ms ds mem path (Vfs.lookedUp ws ps) ptr call

theorem byPath_eq (function : Nat → FsCall → FileSystem → Option (Int × FileSystem)) (h : s.Tables fuel ms ds os)
    {block : Nat × SlabMem} {slab : SlabMem} (hpath : s.PathOk fuel ms ds page path ws ps block slab)
    (ptr : FsPtrs → Nat) (call : Nat → FsCall)
    : s.PathAnswered function fuel ms ds os page path ptr call (s.byPath function fuel page path ptr call) := by
  obtain ⟨hkmalloc, hlookup, hkfree, hspared⟩ := hpath
  obtain ⟨mem, hprepared⟩ := Vfs.prepared_lookup h.listed hlookup
  have hget : s.vfs.getFsType fuel fuel (fun _ => block) path = _ :=
    hprepared.getFsType_eq fuel h.listed h.length_le
  rw [hkfree, Option.map_some] at hget
  have hcopied : ({ s.vfs with mem, pathSwap := block.1 } : Vfs).Listed ms := h.listed.of_paths hprepared.mounts
  have hmounts (m : Mount) (hm : m ∈ ms)
      : StringAt (mem.storeWords (block.2.kfreeStores fuel block.1)) (s.vfs.mountPoint m.point).path m.path :=
    (hprepared.copied.stringAt_iff (hlookup.block.clear m hm) _).mpr (hspared.mount m hm)
  have hlisted := listed_storeWords (hcopied.found (Vfs.select ms (Vfs.lookedUp ws ps))) hspared.node hspared.point
    hmounts
  have hstring := (hprepared.stringAt_iff (Nat.le_refl _) (Nat.le_refl _) _).mpr hspared.string
  have hsame := hspared.sameTables
  generalize hv : (({ s.vfs with mem, pathSwap := block.1 } : Vfs).found
    (Vfs.select ms (Vfs.lookedUp ws ps))).storeWords (block.2.kfreeStores fuel block.1) = vfs at *
  have hdrivers : Filled fuel ({ s.storeWords (block.2.kfreeStores fuel block.1) with vfs, slab } : FileSystem).fsDrivers
      ds := (hsame vfs slab).drivers ▸ h.drivers
  have hfds : Filled fuel ({ s.storeWords (block.2.kfreeStores fuel block.1) with vfs, slab } : FileSystem).fds os :=
    (hsame vfs slab).fds ▸ h.fds
  refine ⟨ws, ps, block, slab, mem, _, ⟨hkmalloc, hlookup, hkfree, hspared⟩, hprepared.string_copied, ?_,
    ⟨hlisted, h.length_le, hdrivers, hfds⟩, hsame vfs slab, ?_⟩
  . rw [← hv]
    exact hstring
  . rw [byPath, hkmalloc, Option.bind_eq_bind, Option.bind_some, hget, Option.bind_eq_bind, Option.bind_some, pathAnswer]
    cases hselect : Vfs.select ms (Vfs.lookedUp ws ps) with
    | none => rfl
    | some m =>
      have hm := (Vfs.isLongest_of_select hselect).mem
      have hdriver : ((s.vfs.mountPoint m.point).storeWords (block.2.kfreeStores fuel block.1) m.point).driverId
          = m.driverId := by
        rw [MountPoint.storeWords, WordStore.applyInt_of_miss ((hspared.point m hm).mono (by omega) (by omega))]
        exact (h.listed.mountAt m hm).driverId_eq
      simp only [Vfs.fsTypeOf, hdriver, ne_eq, not_true_eq_false, if_false]
      exact forward_eq hdrivers m.driverId ptr _

/--
What the caller of a path passes can be looked up.
-/
def PathAsks (fuel : Nat) (ms : List Mount) (ds : List Insertion) (s : FileSystem) : FsOp → Prop
  | .mkdir page path _ => ∃ ws ps block slab, s.PathOk fuel ms ds page path ws ps block slab
  | .openFile page path _ => ∃ ws ps block slab, s.PathOk fuel ms ds page path ws ps block slab
  | _ => True

/--
Each call gets to the function of its own name.
-/
def Answered (function : Nat → FsCall → FileSystem → Option (Int × FileSystem)) (fuel : Nat) (ms : List Mount)
    (ds os : List Insertion) (s : FileSystem) (op : FsOp) : Prop :=
  let result := s.perform function fuel op
  match op with
  | .close fd => result = fdAnswer function s ds os fd FsPtrs.close .close
  | .mkdir page path mode =>
    s.PathAnswered function fuel ms ds os page path FsPtrs.mkdir (fun baked => .mkdir baked mode) result
  | .openFile page path oflag =>
    s.PathAnswered function fuel ms ds os page path FsPtrs.openFile (fun baked => .openFile baked oflag) result
  | .read fd buf nbytes => result = fdAnswer function s ds os fd FsPtrs.read (fun inode => .read inode buf nbytes)
  | .write fd buf nbytes => result = fdAnswer function s ds os fd FsPtrs.write (fun inode => .write inode buf nbytes)

/--
Behind the tables of `s`, the functions of the drivers may record descriptors, as long as no rotation comes due.
-/
def KeepsTables (function : Nat → FsCall → FileSystem → Option (Int × FileSystem)) (fuel : Nat) (ms : List Mount)
    (ds : List Insertion) (s : FileSystem) : Prop :=
  ∀ f call t os r t', s.SameTables t ds → t.Tables fuel ms ds os → function f call t = some (r, t')
    → ∃ os', t'.Tables fuel ms ds os'

def Asks (function : Nat → FsCall → FileSystem → Option (Int × FileSystem)) (fuel : Nat) (ms : List Mount)
    (ds : List Insertion) (s : FileSystem) (op : FsOp) : Prop :=
  s.PathAsks fuel ms ds op ∧ KeepsTables function fuel ms ds s

theorem SameTables.refl (s : FileSystem) (ds : List Insertion) : s.SameTables s ds :=
  ⟨rfl, fun _ _ => rfl, rfl, fun _ _ _ => rfl⟩

theorem forwarded_tables (hfunction : KeepsTables function fuel ms ds s) (hsame : s.SameTables t ds)
    (h : t.Tables fuel ms ds os) {type : Int} {ptr : FsPtrs → Nat} {call : FsCall} {r : Int}
    (ht' : forwarded function t ds type ptr call = some (r, t'))
    : ∃ os', t'.Tables fuel ms ds os' := by
  rw [forwarded] at ht'
  cases hfirst : first ds type with
  | none =>
    rw [hfirst] at ht'
    exact absurd ht' (by simp)
  | some o =>
    rw [hfirst] at ht'
    dsimp only at ht'
    by_cases hnull : ptr (t.fsDriver o.data).ptrs = 0
    . rw [if_pos hnull, Option.some.injEq, Prod.mk.injEq] at ht'
      exact ⟨os, ht'.2 ▸ h⟩
    . rw [if_neg hnull] at ht'
      exact hfunction _ _ _ _ _ _ hsame h ht'

theorem fdAnswer_tables (hfunction : KeepsTables function fuel ms ds s) (h : s.Tables fuel ms ds os) {fd : Int}
    {ptr : FsPtrs → Nat} {call : Int → FsCall} {r : Int}
    (hs' : fdAnswer function s ds os fd ptr call = some (r, s'))
    : ∃ os', s'.Tables fuel ms ds os' := by
  rw [fdAnswer] at hs'
  cases hfirst : first os fd with
  | none =>
    rw [hfirst, Option.some.injEq, Prod.mk.injEq] at hs'
    exact ⟨os, hs'.2 ▸ h⟩
  | some o =>
    rw [hfirst] at hs'
    exact forwarded_tables hfunction (.refl s ds) h hs'

theorem pathAnswer_tables (hfunction : KeepsTables function fuel ms ds s) (hsame : s.SameTables t ds)
    (h : t.Tables fuel ms ds os) {mem : Memory} {fs : List (BitVec 8)} {ptr : FsPtrs → Nat} {call : Nat → FsCall}
    {r : Int} (ht' : pathAnswer function t ms ds mem path fs ptr call = some (r, t'))
    : ∃ os', t'.Tables fuel ms ds os' := by
  rw [pathAnswer] at ht'
  cases hselect : Vfs.select ms fs with
  | none =>
    rw [hselect, Option.some.injEq, Prod.mk.injEq] at ht'
    exact ⟨os, ht'.2 ▸ h⟩
  | some m =>
    rw [hselect] at ht'
    exact forwarded_tables hfunction hsame h ht'

/--
What one call does: it is answered, and there are tables behind it.
-/
theorem byFd_spec (hfunction : KeepsTables function fuel ms ds s) (h : s.Tables fuel ms ds os) (fd : Int)
    (ptr : FsPtrs → Nat) (call : Int → FsCall)
    : s.byFd function fuel fd ptr call = fdAnswer function s ds os fd ptr call
        ∧ ∀ r s', s.byFd function fuel fd ptr call = some (r, s') → ∃ os', s'.Tables fuel ms ds os' := by
  have heq := byFd_eq function h fd ptr call
  refine ⟨heq, fun r s' hs' => ?_⟩
  rw [heq] at hs'
  exact fdAnswer_tables hfunction h hs'

theorem byPath_spec (hfunction : KeepsTables function fuel ms ds s) (h : s.Tables fuel ms ds os)
    (hpath : ∃ ws ps block slab, s.PathOk fuel ms ds page path ws ps block slab) (ptr : FsPtrs → Nat)
    (call : Nat → FsCall)
    : s.PathAnswered function fuel ms ds os page path ptr call (s.byPath function fuel page path ptr call)
        ∧ ∀ r s', s.byPath function fuel page path ptr call = some (r, s') → ∃ os', s'.Tables fuel ms ds os' := by
  obtain ⟨ws, ps, block, slab, hok⟩ := hpath
  have hanswered := byPath_eq function h hok ptr call
  refine ⟨hanswered, fun r s' hs' => ?_⟩
  obtain ⟨_, _, _, _, _, t, -, -, -, htables, hsame, heq⟩ := hanswered
  rw [heq] at hs'
  exact pathAnswer_tables hfunction hsame htables hs'

theorem perform_spec (h : s.Tables fuel ms ds os) {op : FsOp} (hop : s.Asks function fuel ms ds op)
    : s.Answered function fuel ms ds os op
        ∧ ∀ r s', s.perform function fuel op = some (r, s') → ∃ os', s'.Tables fuel ms ds os' := by
  obtain ⟨hpath, hfunction⟩ := hop
  cases op with
  | close fd => exact byFd_spec hfunction h fd FsPtrs.close .close
  | mkdir page path mode => exact byPath_spec hfunction h hpath FsPtrs.mkdir (fun baked => .mkdir baked mode)
  | openFile page path oflag => exact byPath_spec hfunction h hpath FsPtrs.openFile (fun baked => .openFile baked oflag)
  | read fd buf nbytes => exact byFd_spec hfunction h fd FsPtrs.read (fun inode => .read inode buf nbytes)
  | write fd buf nbytes => exact byFd_spec hfunction h fd FsPtrs.write (fun inode => .write inode buf nbytes)

/--
One call of a program after the other.
-/
def step (function : Nat → FsCall → FileSystem → Option (Int × FileSystem)) (fuel : Nat) (s : FileSystem) (op : FsOp)
    : Option FileSystem :=
  (s.perform function fuel op).map Prod.snd

end Forward

section Init

/--
What `fs_init` mounts.
-/
def initMounts (a : FsRecords) (kmalloc : Nat → Nat) : List Mount :=
  [⟨a.mount_point_root, kmalloc 0, [0x2F], MINIX_FS_DRV⟩,
    ⟨a.mount_point_dev, kmalloc 1, [0x2F, 0x64, 0x65, 0x76], DEVFS_FS_DRV⟩]

def initDrivers (a : FsRecords) (kmalloc : Nat → Nat) : List Insertion :=
  [⟨kmalloc 2, a.minix_fs_drv, MINIX_FS_DRV⟩, ⟨kmalloc 3, a.devfs_fs_drv, DEVFS_FS_DRV⟩]

/--
The variables as the kernel's image has them, and four allocations that do not fail.
-/
structure Initial (s : FileSystem) (a : FsRecords) (kmalloc : Nat → Nat) : Prop where
  head : s.vfs.mountPointHead = 0
  drivers : s.fsDrivers = empty
  fds : s.fds = empty
  mountAt (m : Mount) (hm : m ∈ initMounts a kmalloc) : s.vfs.MountAt m
  minix : a.minix_fs_drv ≠ 0
  devfs : a.devfs_fs_drv ≠ 0
  ne_zero (i : Nat) (hi : i < 4) : kmalloc i ≠ 0
  nodes : kmalloc 0 ≠ kmalloc 1
  addrs : kmalloc 2 ≠ kmalloc 3

variable {s : FileSystem} {a : FsRecords} {kmalloc : Nat → Nat} {fuel : Nat}

theorem Initial.freshAddrs (h : s.Initial a kmalloc) : FreshAddrs (initDrivers a kmalloc) := by
  simp [FreshAddrs, initDrivers, h.ne_zero 2, h.ne_zero 3, h.addrs]

theorem filled_initDrivers (h : s.Initial a kmalloc) {t : Bst} (hrun : insertAll fuel (initDrivers a kmalloc) = some t)
    (hfuel : 2 < fuel)
    : Filled fuel t (initDrivers a kmalloc) := by
  refine ⟨hrun, h.freshAddrs, of_decide_eq_true rfl, hfuel, ?_⟩
  simp [initDrivers, h.minix, h.devfs]

theorem filled_nil (hfuel : 0 < fuel) : Filled fuel empty [] := by
  refine ⟨rfl, ?_, of_decide_eq_true rfl, hfuel, by simp⟩
  simp [FreshAddrs]

/--
`fs_init` leaves the tables for the calls: "/" and "/dev" are mounted, and no file is open.
-/
theorem fsInit_tables (h : s.Initial a kmalloc) (hfuel : 2 < fuel)
    : ∃ s', s.fsInit fuel a kmalloc = some s' ∧ s'.Tables fuel (initMounts a kmalloc) (initDrivers a kmalloc) [] := by
  obtain ⟨list, hlist, -, -⟩ := insert_ring s.vfs.list ⟨a.mount_point_root, kmalloc 0⟩ [⟨a.mount_point_dev, kmalloc 1⟩]
    (by simp [h.nodes]) (by simp [h.ne_zero 0, h.ne_zero 1])
  obtain ⟨t, hdrivers, -⟩ := insertAll_repr h.freshAddrs hfuel
  have hfilled := filled_initDrivers h hdrivers hfuel
  have hmounted : ({ s.vfs with list, mountPointHead := kmalloc 0 } : Vfs).Mounted (initMounts a kmalloc) := by
    refine ⟨⟨s.vfs.list, hlist⟩, ?_, ?_, ?_⟩
    . simp [initMounts, h.nodes]
    . simp [initMounts, h.ne_zero 0, h.ne_zero 1]
    . intro m hm
      have ⟨hpoint, hpath, hlen, hdriver, habs⟩ := h.mountAt m hm
      exact ⟨hpoint, hpath, hlen, hdriver, habs⟩
  rw [Run.run_cons, Option.bind_eq_some_iff] at hlist
  obtain ⟨⟨list', head'⟩, hroot, hlist⟩ := hlist
  rw [Run.run_cons, Option.bind_eq_some_iff] at hlist
  obtain ⟨w, hdev, hlist⟩ := hlist
  rw [Run.run_nil, Option.some.injEq] at hlist
  subst hlist
  rw [insertAll, initDrivers, Run.run_cons, Option.bind_eq_some_iff] at hdrivers
  obtain ⟨t', hminix, hdrivers⟩ := hdrivers
  rw [Run.run_cons, Option.bind_eq_some_iff] at hdrivers
  obtain ⟨t'', hdevfs, hdrivers⟩ := hdrivers
  rw [Run.run_nil, Option.some.injEq] at hdrivers
  subst hdrivers
  obtain ⟨⟨r, t'⟩, hinsert, rfl⟩ := Option.map_eq_some_iff.mp hminix
  obtain ⟨⟨r', t''⟩, hinsert', rfl⟩ := Option.map_eq_some_iff.mp hdevfs
  rw [insertNode] at hroot hdev
  refine ⟨{ s with vfs := { s.vfs with list, mountPointHead := kmalloc 0 }, fsDrivers := t'' }, ?_,
    ⟨hmounted.listed, Nat.le_of_lt hfuel, hfilled, h.fds ▸ filled_nil (by omega)⟩⟩
  dsimp only at hroot hdev hinsert hinsert'
  simp only [fsInit, h.head, h.drivers, hroot, hdev, hinsert, hinsert', Option.bind_eq_bind, Option.bind_some,
    Option.pure_def]

end Init

section Example

/--
What `fs_init` inserts, at the nodes that `kmalloc` has returned for them.
-/
def exampleDrivers : List Insertion := [⟨0xC020333C, 0xC0107020, 1⟩, ⟨0xC020335C, 0xC0107080, 2⟩]

/--
The driver of "/dev" opens, reads and closes, the other one has no functions.
-/
def exampleFiles : FileSystem where
  vfs := Vfs.exampleVfs
  slab := Vfs.exampleSlab
  fsDrivers := (insertAll 13 exampleDrivers).getD empty
  fsDriver := fun a =>
    if a = 0xC0107080 then ⟨⟨0xC0101000, 0, 0xC0101100, 0xC0101200, 0⟩⟩ else ⟨⟨0, 0, 0, 0, 0⟩⟩
  fds := empty
  fd := fun _ => ⟨0, 0⟩

/--
The first file that is opened becomes the descriptor 3.
-/
def exampleOpen (s : FileSystem) : Option (Int × FileSystem) := do
  let (node, slab) ← s.slab.kmalloc 13 24 0
  if node = 0 then
    return (-1, { s with slab })
  else
    let (_, fds) ← bstInsert ⟨node, 0xC0107100, 3⟩ 13 s.fds .root
    return (3, { s with slab, fds, fd := fun a => if a = 0xC0107100 then ⟨2, 7⟩ else s.fd a })

def exampleFunction (_ : Nat) (call : FsCall) (s : FileSystem) : Option (Int × FileSystem) :=
  match call with
  | .openFile _ _ => if s.fds.root = 0 then exampleOpen s else some (-1, s)
  | _ => some (0, s)

theorem freshAddrs_single {o : Insertion} (ho : o.addr ≠ 0) : FreshAddrs [o] :=
  ⟨by simpa using ho, by simp⟩

theorem exampleOpen_tables {s s' : FileSystem} {ms : List Mount} {ds : List Insertion} {r : Int}
    (h : s.Tables 13 ms ds []) (hs' : exampleOpen s = some (r, s'))
    : ∃ os, s'.Tables 13 ms ds os := by
  have hempty : s.fds = empty := (Option.some.inj h.fds.insertAll_eq).symm
  obtain ⟨⟨node, slab⟩, -, hs'⟩ := Option.bind_eq_some_iff.mp hs'
  dsimp only at hs'
  split at hs'
  . cases hs'
    exact ⟨[], h.listed, h.length_le, h.drivers, h.fds⟩
  . rename_i hnode
    obtain ⟨⟨q, fds⟩, hinsert, hs'⟩ := Option.bind_eq_some_iff.mp hs'
    cases hs'
    refine ⟨[⟨node, 0xC0107100, 3⟩], h.listed, h.length_le, h.drivers, ?_, freshAddrs_single hnode,
      of_decide_eq_true rfl, by simp, by simp⟩
    rw [insertAll, Run.run_cons, insertStep, ← hempty, hinsert, Option.map_some, Option.bind_some, Run.run_nil]

theorem keepsTables_exampleFunction (ms : List Mount) (ds : List Insertion) (s : FileSystem)
    : KeepsTables exampleFunction 13 ms ds s := by
  intro f call t os r t' _ h ht'
  cases call with
  | openFile baked oflag =>
    simp only [exampleFunction] at ht'
    split at ht'
    . rename_i hroot
      obtain rfl := h.fds.eq_nil hroot
      exact exampleOpen_tables h ht'
    . cases ht'
      exact ⟨os, h⟩
  | close | mkdir | read | write =>
    cases ht'
    exact ⟨os, h⟩

theorem freshAddrs_exampleDrivers : FreshAddrs exampleDrivers := by
  unfold FreshAddrs
  decide

theorem insertAll_exampleDrivers : insertAll 13 exampleDrivers = some exampleFiles.fsDrivers := by
  obtain ⟨t, hrun, -⟩ := @insertAll_repr exampleDrivers 13 freshAddrs_exampleDrivers (by decide)
  simp only [exampleFiles, hrun, Option.getD_some]

theorem tables_exampleFiles : exampleFiles.Tables 13 Vfs.exampleMounts exampleDrivers [] :=
  ⟨Vfs.mounted_exampleVfs.listed, by decide,
    ⟨insertAll_exampleDrivers, freshAddrs_exampleDrivers, of_decide_eq_true rfl, by decide, by decide⟩,
    filled_nil (by decide)⟩

theorem spared_exampleFiles
    : exampleFiles.Spared Vfs.exampleMounts exampleDrivers
        ((Vfs.exampleKmalloc 10).2.kfreeStores 13 (Vfs.exampleKmalloc 10).1) 0xC0108040 (0x2F :: Vfs.tty) := by
  have hnode (p : Nat) (hp : exampleFiles.fsDrivers.node p ≠ none) : p ∈ exampleDrivers.map Insertion.addr := by
    obtain ⟨t, hrun, -, hnone⟩ := @insertAll_spec exampleDrivers 13 freshAddrs_exampleDrivers (by decide)
    obtain rfl := Option.some.inj (insertAll_exampleDrivers.symm.trans hrun)
    exact of_not_not fun h => hp (hnone p h)
  refine ⟨by decide +kernel, ?_, ?_, ?_, ?_, ?_, ?_, ?_⟩
  . decide +kernel
  . decide +kernel
  . decide +kernel
  . have hmiss : ∀ p ∈ exampleDrivers.map Insertion.addr,
        WordStore.Miss ((Vfs.exampleKmalloc 10).2.kfreeStores 13 (Vfs.exampleKmalloc 10).1) p 24 := by
      decide +kernel
    exact fun p hp => hmiss p (hnode p hp)
  . decide +kernel
  . exact fun p hp => absurd rfl hp
  . exact fun p n hp => absurd hp (by simp [exampleFiles, empty])

theorem pathAsks_exampleFiles
    : exampleFiles.PathAsks 13 Vfs.exampleMounts exampleDrivers (.openFile 0xC0205000 0xC0108040 0) := by
  have hsome : (Vfs.exampleSlab.kmalloc 13 10 0xC0205000).isSome := by decide +kernel
  obtain ⟨block, hblock⟩ := Option.isSome_iff_exists.mp hsome
  have heq : Vfs.exampleKmalloc 10 = block := by
    rw [Vfs.exampleKmalloc, Vfs.slabKmalloc, hblock, Option.getD_some]
  have hfree : ((Vfs.exampleKmalloc 10).2.kfree 13 (Vfs.exampleKmalloc 10).1).isSome := by decide +kernel
  obtain ⟨slab, hslab⟩ := Option.isSome_iff_exists.mp hfree
  refine ⟨[0x2F], 0x2F :: Vfs.tty, Vfs.exampleKmalloc 10, slab, ?_, ?_, hslab, spared_exampleFiles⟩
  . have hsize : exampleFiles.vfs.bufSize 0xC0108040 = 10 := by decide +kernel
    rw [hsize, heq]
    simpa only [exampleFiles] using hblock
  . have hlookup : Vfs.exampleVfs.Lookup Vfs.exampleMounts (fun size => (Vfs.exampleKmalloc size).1) [0x2F] 0xC0108040
        (0x2F :: Vfs.tty) :=
      Vfs.lookup_exampleVfs (by decide +kernel) (by decide) (by decide)
    exact ⟨hlookup.pwd, hlookup.string, hlookup.fits, hlookup.block, hlookup.clear_pwd, hlookup.clear⟩

def exampleCalls : List FsOp := [.openFile 0xC0205000 0xC0108040 0, .read 3 0xC0109000 16, .close 3]

end Example

end FileSystem
end Osproj
