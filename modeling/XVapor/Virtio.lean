import XVapor.SharedRing
import XVapor.Machine

/-!
# The Virtio Disk Driver

`virtio_disk_rw` and `virtio_disk_intr` (`fs/virtio_disk.c`), and the device. A request is a
chain of three of the `NUM` descriptors: the command, the data, and the status byte. The
driver puts the head of the chain into the avail ring, and the device, when it is done, into
the used ring. A read sleeps until `virtio_disk_intr` clears `b->disk`, and frees its chain; a
write does not wait, and `virtio_disk_intr` frees its chain, which it knows from
`info[id].idx1`. A write that finds no three free descriptors gives up.

## Conventions

* Every step of a thread that holds `vdisk_lock` is a step of the machine, and the device can
  act between any two. The formatting of the chain is one step, and so is an iteration of the
  loop in `virtio_disk_intr`.
* `thread_sleep` gives up the lock, and may return at any time: it takes the lock again, and
  the condition is tested again. So a wakeup does nothing in the model.
* The device consumes the avail ring in order, and completes what it has consumed in any
  order. It finds the status byte through the chain.
* Indices of descriptors are numbers, as the driver does not check those it reads from a
  ring; `avail->idx`, `used->idx` and `used_idx` are counters modulo `2 ^ 16`.
* `reqs` is the history that matters: the requests that were submitted, with a mark once
  `virtio_disk_intr` has handled them, and whose chain was not released.
-/

namespace XVapor.Virtio

open Function

def NUM : ℕ := 8

/-- The range of the counters. -/
def U16 : ℕ := 65536

def BSIZE : ℕ := 512

def VRING_DESC_F_NEXT : BitVec 16 := 1

def VRING_DESC_F_WRITE : BitVec 16 := 2

/-! ### The memory shared with the device -/

variable {T B : Type}

/-- What a descriptor points to: a command, the data of a buffer, or a status byte. -/
inductive Addr (B : Type)
  | null
  | op (i : ℕ)
  | data (b : B)
  | status (i : ℕ)
  deriving DecidableEq

/-- `struct virtq_desc`. -/
structure Desc (B : Type) where
  addr : Addr B
  len : ℕ
  flags : BitVec 16
  next : ℕ
  deriving DecidableEq

/-- A descriptor that `free_desc` has cleared. -/
def Desc.zero : Desc B := ⟨.null, 0, 0, 0⟩

/-- The type of a request, `VIRTIO_BLK_T_IN` or `VIRTIO_BLK_T_OUT`. -/
inductive BlkType
  | tIn
  | tOut
  deriving DecidableEq, Repr

/-- `struct virtio_blk_req`. -/
structure BlkReq where
  type : BlkType
  sector : ℕ
  deriving DecidableEq, Repr

/-- An entry of `disk.info`. -/
structure Info (B : Type) where
  b : Option B
  status : ℕ
  idx1 : ℤ
  deriving DecidableEq

/-- `struct disk`, but for the lock. -/
structure Disk (B : Type) where
  desc : ℕ → Desc B
  availRing : ℕ → ℕ
  availIdx : ℕ
  usedRing : ℕ → ℕ
  usedRingIdx : ℕ
  free : ℕ → Bool
  usedIdx : ℕ
  info : ℕ → Info B
  ops : ℕ → BlkReq

/-- `virtio_disk_init`. -/
def virtioDiskInit : Disk B where
  desc _ := .zero
  availRing _ := 0
  availIdx := 0
  usedRing _ := 0
  usedRingIdx := 0
  free i := decide (i < NUM)
  usedIdx := 0
  info _ := ⟨none, 0, 0⟩
  ops _ := ⟨.tIn, 0⟩

/-! ### Descriptors -/

/-- The panics of the driver. -/
inductive VPanic
  | freeDesc1
  | freeDesc2
  | intrStatus
  deriving DecidableEq, Repr

/-- `alloc_desc`. -/
def allocDesc (d : Disk B) : Option (ℕ × Disk B) :=
  ((List.range NUM).find? d.free).map fun i =>
    (i, { d with free := update d.free i false })

/-- `free_desc`. -/
def freeDesc (d : Disk B) (i : ℕ) : Except VPanic (Disk B) :=
  if i ≥ NUM then .error .freeDesc1
  else if d.free i then .error .freeDesc2
  else .ok { d with
    desc := update d.desc i .zero
    free := update d.free i true }

/-- The loop of `free_chain`. A descriptor is freed in each iteration, so there is no
iteration `NUM + 1`: the panic of `free_desc` comes first. -/
def freeChainLoop : ℕ → Disk B → ℕ → Except VPanic (Disk B)
  | 0, _, _ => .error .freeDesc2
  | fuel + 1, d, i => do
      let flag := (d.desc i).flags
      let nxt := (d.desc i).next
      let d ← freeDesc d i
      if flag &&& VRING_DESC_F_NEXT ≠ 0 then freeChainLoop fuel d nxt else pure d

/-- `free_chain`. -/
def freeChain (d : Disk B) (i : ℕ) : Except VPanic (Disk B) := freeChainLoop (NUM + 1) d i

/-- The loop of `alloc_descs`, with the descriptors found so far. -/
def allocDescsLoop : ℕ → List ℕ → Disk B → Except VPanic (Option (List ℕ) × Disk B)
  | 0, idx, d => .ok (some idx, d)
  | n + 1, idx, d =>
    match allocDesc d with
    | some (i, d) => allocDescsLoop n (idx ++ [i]) d
    | none => do
        let d ← idx.foldlM freeDesc d
        pure (none, d)

/-- `alloc_descs`. -/
def allocDescs (d : Disk B) (n : ℕ) : Except VPanic (Option (List ℕ) × Disk B) :=
  allocDescsLoop n [] d

/-- The three descriptors of a request. -/
structure Chain where
  i0 : ℕ
  i1 : ℕ
  i2 : ℕ
  deriving DecidableEq, Repr

def Chain.ids (c : Chain) : List ℕ := [c.i0, c.i1, c.i2]

/-- The part of `virtio_disk_rw_multiple` that formats the three descriptors. -/
def formatDescs (d : Disk B) (c : Chain) (b : B) (write : Bool) (blockno : ℕ) : Disk B :=
  let desc := update d.desc c.i0 ⟨.op c.i0, 16, VRING_DESC_F_NEXT, c.i1⟩
  let desc := update desc c.i1
    ⟨.data b, BSIZE, (if write then 0 else VRING_DESC_F_WRITE) ||| VRING_DESC_F_NEXT, c.i2⟩
  let desc := update desc c.i2 ⟨.status c.i0, 1, VRING_DESC_F_WRITE, 0⟩
  { d with
    desc
    ops := update d.ops c.i0
      ⟨if write then .tOut else .tIn, blockno * (BSIZE / 512)⟩
    info := update d.info c.i0 ⟨some b, 0xff, if write then c.i0 else -1⟩ }

/-! ### Threads, the handler and the device -/

/-- Where a thread is in `virtio_disk_rw(b, write)`. -/
inductive Pc (B : Type)
  /-- Not in the function. -/
  | idle
  /-- Before `acquire(&disk.vdisk_lock)`, or asleep until a descriptor is freed. -/
  | enter (b : B) (write : Bool)
  /-- Before `alloc_descs`. -/
  | alloc (b : B) (write : Bool)
  /-- Before the descriptors are formatted. -/
  | format (b : B) (write : Bool) (c : Chain)
  /-- Before the head is put into the avail ring. -/
  | ring (b : B) (write : Bool) (c : Chain)
  /-- Before `disk.avail->idx += 1`. -/
  | publish (b : B) (write : Bool) (c : Chain)
  /-- After it. -/
  | submitted (b : B) (write : Bool) (c : Chain)
  /-- Before the test of `b->disk`. -/
  | test (b : B) (c : Chain)
  /-- Asleep until `b->disk` is cleared. -/
  | asleep (b : B) (c : Chain)
  deriving DecidableEq

/-- Who holds `vdisk_lock`: a thread, or the interrupt handler. -/
inductive Holder (T : Type)
  | thread (t : T)
  | intr
  deriving DecidableEq

/-- A request whose chain was not released, and whether `virtio_disk_intr` has handled it. -/
structure Req (B : Type) where
  chain : Chain
  b : B
  write : Bool
  sector : ℕ
  handled : Bool
  deriving DecidableEq

/-- The state of the driver and of the device, which has consumed the avail ring up to
`devIdx` and works on the requests in `inflight`. -/
structure VState (T B : Type) where
  disk : Disk B
  bdisk : B → Bool
  lock : Option (Holder T)
  pc : T → Pc B
  devIdx : ℕ
  inflight : List ℕ
  reqs : List (Req B)

/-- The state after `virtio_disk_init`. -/
def VState.boot : VState T B := ⟨virtioDiskInit, fun _ => false, none, fun _ => .idle, 0, [], []⟩

variable [DecidableEq T] [DecidableEq B]

/-- A thread moves on, and takes, keeps or gives up the lock. -/
def VState.goto (s : VState T B) (t : T) (pc : Pc B) (lock : Option (Holder T)) :
    VState T B :=
  { s with pc := update s.pc t pc, lock }

/-- The next step of a thread in `virtio_disk_rw_multiple`. The number of the block is what it
reads from `b->blockno` when it formats the command. -/
def threadStep (s : VState T B) (t : T) (blockno : ℕ) :
    Except VPanic (Option (VState T B)) :=
  match s.pc t with
  | .idle => pure none
  | .enter b write =>
    pure (if s.lock = none then some (s.goto t (.alloc b write) (some (.thread t)))
      else none)
  | .alloc b write => do
      let (r, disk) ← allocDescs s.disk 3
      match r with
      | some [i0, i1, i2] =>
        pure (some ({ s with disk }.goto t (.format b write ⟨i0, i1, i2⟩) s.lock))
      | _ =>
        -- a write does not wait
        pure (some ({ s with disk }.goto t (if write then .idle else .enter b write) none))
  | .format b write c =>
    let disk := formatDescs s.disk c b write blockno
    pure (some ({ s with disk }.goto t (.ring b write c) s.lock))
  | .ring b write c =>
    let disk := { s.disk with
      availRing := update s.disk.availRing (s.disk.availIdx % NUM) c.i0 }
    pure (some ({ s with disk }.goto t (.publish b write c) s.lock))
  | .publish b write c =>
    let disk := { s.disk with availIdx := (s.disk.availIdx + 1) % U16 }
    let reqs := s.reqs ++ [⟨c, b, write, (s.disk.ops c.i0).sector, false⟩]
    pure (some ({ s with disk, reqs }.goto t (.submitted b write c) s.lock))
  | .submitted b write c =>
    if write then pure (some (s.goto t .idle none))
    else
      let bdisk := update s.bdisk b true
      pure (some ({ s with bdisk }.goto t (.test b c) s.lock))
  | .test b c =>
    if s.bdisk b then pure (some (s.goto t (.asleep b c) none))
    else do
      let disk ← freeChain s.disk c.i0
      let reqs := s.reqs.filter (·.chain.i0 ≠ c.i0)
      pure (some ({ s with disk, reqs }.goto t .idle none))
  | .asleep b c =>
    pure (if s.lock = none then some (s.goto t (.test b c) (some (.thread t))) else none)

/-- An iteration of the loop in `virtio_disk_intr`, or its end. -/
def intrStep (s : VState T B) : Except VPanic (Option (VState T B)) :=
  if s.lock ≠ some .intr then pure none
  else if s.disk.usedIdx = s.disk.usedRingIdx then pure (some { s with lock := none })
  else
    let id := s.disk.usedRing (s.disk.usedIdx % NUM)
    let info := s.disk.info id
    let disk := { s.disk with usedIdx := (s.disk.usedIdx + 1) % U16 }
    if info.status ≠ 0 then throw .intrStatus
    else if info.idx1 < 0 then
      let bdisk := match info.b with
        | some b => update s.bdisk b false
        | none => s.bdisk
      let reqs := s.reqs.map fun r => if r.chain.i0 = id then { r with handled := true } else r
      pure (some { s with disk, bdisk, reqs })
    else do
      let disk ← freeChain disk info.idx1.toNat
      let reqs := s.reqs.filter (·.chain.i0 ≠ info.idx1.toNat)
      pure (some { s with disk, reqs })

/-- The device consumes an entry of the avail ring. -/
def takeStep (s : VState T B) : Option (VState T B) :=
  if s.devIdx = s.disk.availIdx then none
  else some { s with
    devIdx := (s.devIdx + 1) % U16
    inflight := s.inflight ++ [s.disk.availRing (s.devIdx % NUM)] }

/-- The device writes the status of a request to where the third descriptor of the chain
points. -/
def writeStatus (d : Disk B) (id : ℕ) : Disk B :=
  match (d.desc (d.desc (d.desc id).next).next).addr with
  | .status i => { d with info := update d.info i { d.info i with status := 0 } }
  | _ => d

/-- The device completes a request it has consumed. -/
def completeStep (s : VState T B) (id : ℕ) : Option (VState T B) :=
  if id ∈ s.inflight then
    let disk := writeStatus s.disk id
    some { s with
      inflight := s.inflight.erase id
      disk := { disk with
        usedRing := update disk.usedRing (disk.usedRingIdx % NUM) id
        usedRingIdx := (disk.usedRingIdx + 1) % U16 } }
  else none

/-- The actions: a thread calls `virtio_disk_rw`, or goes on; the handler is entered, or goes
on; the device consumes, or completes. -/
inductive VAct (T B : Type)
  | call (t : T) (b : B) (write : Bool)
  | thread (t : T) (blockno : ℕ)
  | intrEnter
  | intr
  | take
  | complete (id : ℕ)
  deriving DecidableEq

/-- One step of the driver or the device; `none` if it cannot be taken. -/
def vstep (s : VState T B) : VAct T B → Except VPanic (Option (VState T B))
  | .call t b write =>
    pure (if s.pc t = .idle then some (s.goto t (.enter b write) s.lock) else none)
  | .thread t blockno => threadStep s t blockno
  | .intrEnter => pure (if s.lock = none then some { s with lock := some .intr } else none)
  | .intr => intrStep s
  | .take => pure (takeStep s)
  | .complete id => pure (completeStep s id)

end XVapor.Virtio
