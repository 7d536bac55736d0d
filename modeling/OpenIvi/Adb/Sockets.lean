import Mathlib.Logic.Function.Basic
import OpenIvi.Lib.Buffer

/-
  The sockets of adb.

  A local socket has a descriptor and a peer: a remote socket, which stands for the other end of a
  stream on some transport, another local socket, or the smart socket that waits for a request.
  Packets of a transport move data between them.

  A socket is at an address, and addresses are not used again. What a system call answers is part of
  the input. The effects are a log of the data that sockets took from packets, of the bytes that
  descriptors took, and of the packets that were sent.

  The local sockets of all transports are in one list, and the packets `A_OKAY`, `A_CLSE` and
  `A_WRTE` find the socket that they are for by its id alone. So a packet that comes on one
  transport changes the socket of a stream on another one, unless it happens to do nothing.

  Main declarations:
    * `Daemon`
    * `handlePacket`
    * `Isolated`
    * `isolated_iff_spares`
-/

------
-- Sockets And Packets
------

namespace OpenIvi.Adb

open Lib Function List

def maxPayload : Nat := 4096

def aVersion : Nat := 0x01000000

/- The command of a message. -/
inductive Command
| sync
| cnxn
| opens
| okay
| clse
| wrte
| other
deriving DecidableEq

/- `struct apacket`, with the data of its length. -/
structure Packet where
  command : Command
  arg0 : Nat
  arg1 : Nat
  data : Buffer
deriving DecidableEq

/- The peer of a local socket. -/
inductive Peer (τ : Type)
| remote (id : Nat) (transport : τ)
| socket (ptr : Nat)
| smart
| freed
deriving DecidableEq

/- `struct asocket` of a local socket. -/
structure Socket (τ : Type) where
  id : Nat
  closing : Bool
  peer : Option (Peer τ)
  /- `FDE_READ` and `FDE_WRITE` in the state of `fde`. -/
  wantsRead : Bool
  wantsWrite : Bool
  /- What is left of the packets from `pkt_first` on. -/
  queue : List Buffer
  /- `ready` and `close` are the handlers that notify. -/
  notify : Bool
  transport : Option τ
deriving DecidableEq

inductive ConnectionState
| offline
| bootloader
| device
| recovery
| host
deriving DecidableEq

inductive Effect (τ : Type)
| receive (ptr : Nat) (data : Buffer)
| write (ptr : Nat) (bytes : Buffer)
| send (transport : τ) (packet : Packet)

/- An adb server or daemon. -/
structure Daemon (τ : Type) where
  sockets : Nat → Option (Socket τ)
  /- The addresses in `local_socket_list`. -/
  localSocketList : List Nat
  localSocketNextId : Nat
  /- The next address that `calloc` gives. -/
  heap : Nat
  connectionState : τ → ConnectionState
  effects : List (Effect τ)

namespace Daemon

variable {τ : Type} (d : Daemon τ)

/- The socket at an address, unless it was freed. -/
def get (ptr : Nat) : Except Fault (Socket τ) :=
  match d.sockets ptr with
  | some s => .ok s
  | none => .error .outOfBounds

def set (ptr : Nat) (s : Socket τ) : Daemon τ :=
  { d with sockets := update d.sockets ptr (some s) }

def emit (effects : List (Effect τ)) : Daemon τ :=
  { d with effects := d.effects ++ effects }

def sendPacket (p : Packet) (t : τ) : Daemon τ :=
  d.emit [.send t p]

def sendReady (own remote : Nat) (t : τ) : Daemon τ :=
  d.sendPacket ⟨.okay, own, remote, []⟩ t

def sendClose (own remote : Nat) (t : τ) : Daemon τ :=
  d.sendPacket ⟨.clse, own, remote, []⟩ t

def findLocalSocket (id : Nat) : Option Nat :=
  d.localSocketList.find? fun ptr =>
    match d.sockets ptr with
    | some s => s.id == id
    | none => false

/- `create_local_socket` with `install_local_socket`. -/
def createLocalSocket : Daemon τ × Nat :=
  let s : Socket τ :=
    { id := d.localSocketNextId
      closing := false
      peer := none
      wantsRead := false
      wantsWrite := false
      queue := []
      notify := false
      transport := none }
  ({ d.set d.heap s with
      localSocketList := d.localSocketList ++ [d.heap]
      localSocketNextId := (d.localSocketNextId + 1) % 2 ^ 32
      heap := d.heap + 1 }, d.heap)

end Daemon

------
-- Closing
------

variable {τ : Type}

section

variable (d : Daemon τ)

def localSocketDestroy (ptr : Nat) : Daemon τ :=
  { d with
    sockets := update d.sockets ptr none
    localSocketList := d.localSocketList.filter (· != ptr) }

/- `local_socket_close_locked` when the peer is closed. -/
def finishClose (ptr : Nat) : Except Fault (Daemon τ) := do
  let s ← d.get ptr
  if s.closing ∨ s.queue = [] then
    return localSocketDestroy d ptr
  else
    let d := d.set ptr
      { s with closing := true, wantsRead := false, id := 0 }
    return { d with localSocketList := d.localSocketList.filter (· != ptr) }

/-
  The part of `local_socket_close_locked` that closes the peer. The pointer to the peer is kept,
  also when the peer is freed.
-/
def closePeer (ptr : Nat) : Except Fault (Daemon τ) := do
  let s ← d.get ptr
  match s.peer with
  | none => return d
  | some (.remote id t) =>
    -- the peer has no peer itself any more
    let d := d.set ptr { s with peer := some .freed }
    return d.sendClose 0 id t
  | some (.socket other) =>
    let p ← d.get other
    finishClose (d.set other { p with peer := none }) other
  | some .smart => return d.set ptr { s with peer := some .freed }
  | some .freed => .error .outOfBounds

def localSocketCloseLocked (ptr : Nat) : Except Fault (Daemon τ) := do
  let d ← closePeer d ptr
  finishClose d ptr

/- `s->close`: it may be `local_socket_close_notify`. -/
def close (ptr : Nat) : Except Fault (Daemon τ) := do
  let s ← d.get ptr
  if s.notify then
    let d := d.set ptr { s with notify := false }
    localSocketCloseLocked
      (d.emit [.write ptr (str "FAIL0006closed")]) ptr
  else
    localSocketCloseLocked d ptr

------
-- Local Sockets
------

/-
  What a call of `adb_write` answers: that it has written so many bytes, one at least, or the error.
-/
inductive Answer
| wrote (n : Nat)
| again
| interrupted
| failed

/- Why a loop of writes ends. -/
inductive Stop
| done
| again
| failed

structure Written where
  wrote : Buffer
  left : Buffer
  stop : Stop
  answers : List Answer

/-
  Write the data until it is all written or a call fails. With no more answers the descriptor
  blocks. An interrupted call is made again only with `retry`: `local_socket_enqueue` has none.
-/
def writeOut (retry : Bool) : Buffer → List Answer → Written
| [], answers => ⟨[], [], .done, answers⟩
| data, [] => ⟨[], data, .again, []⟩
| data, .wrote n :: answers =>
  let k := max n 1
  let rest := writeOut retry (data.drop k) answers
  { rest with wrote := data.take k ++ rest.wrote }
| data, .again :: answers => ⟨[], data, .again, answers⟩
| data, .interrupted :: answers =>
  if retry then writeOut retry data answers
  else ⟨[], data, .failed, answers⟩
| data, .failed :: answers => ⟨[], data, .failed, answers⟩

/- `local_socket_enqueue`. The result is 0 or 1. -/
def localSocketEnqueue (ptr : Nat) (data : Buffer) (answers : List Answer) :
    Except Fault (Daemon τ × Int) := do
  let s ← d.get ptr
  if s.queue ≠ [] then
    return (d.set ptr { s with queue := s.queue ++ [data], wantsWrite := true }, 1)
  else
    let w := writeOut false data answers
    let d := d.emit [.write ptr w.wrote]
    match w.stop with
    | .failed => return (← close d ptr, 1)
    | .done => return (d, 0)
    | .again =>
      return (d.set ptr { s with queue := [w.left], wantsWrite := true }, 1)

/- `s->ready`: it may be `local_socket_ready_notify`. -/
def ready (ptr : Nat) : Except Fault (Daemon τ) := do
  let s ← d.get ptr
  let d := if s.notify then d.emit [.write ptr (str "OKAY")] else d
  return d.set ptr { s with notify := false, wantsRead := true }

end

------
-- Packets Of A Transport
------

section

variable [DecidableEq τ]

/- Whether this is the server, and the banner it sends. -/
structure Config where
  host : Bool
  banner : Buffer

def sendConnect (cfg : Config) (d : Daemon τ) (t : τ) : Daemon τ :=
  d.sendPacket ⟨.cnxn, aVersion, maxPayload, cfg.banner⟩ t

variable (d : Daemon τ)

/- `remote_socket_disconnect` for the peer of the socket. -/
def remoteSocketDisconnect (ptr : Nat) : Except Fault (Daemon τ) := do
  let s ← d.get ptr
  close (d.set ptr { s with peer := none }) ptr

/- Whether the peer of the socket is on the transport. -/
def onTransport (t : τ) (ptr : Nat) : Bool :=
  match d.sockets ptr with
  | some s =>
    match s.peer with
    | some (.remote _ t') => t' = t
    | _ => false
  | none => false

/- `handle_offline` with `run_transport_disconnects`. -/
def handleOffline (t : τ) : Except Fault (Daemon τ) :=
  (d.localSocketList.filter (onTransport d t)).foldlM remoteSocketDisconnect d

/- `connection_state` as `parse_banner` sets it. -/
def parseBanner (banner : Buffer) : ConnectionState :=
  let type := banner.takeWhile fun c => c != 58 && c != 0
  if type = str "bootloader" then .bootloader
  else if type = str "device" then .device
  else if type = str "recovery" then .recovery
  else .host

def Daemon.setState (t : τ) (state : ConnectionState) : Daemon τ :=
  { d with connectionState := update d.connectionState t state }

/- The start of the branch for `A_CNXN`. -/
def takeOffline (t : τ) : Except Fault (Daemon τ) :=
  if d.connectionState t != .offline then
    handleOffline (d.setState t .offline) t
  else .ok d

/- The branch for `A_OPEN`, if the service exists. -/
def handleOpen (t : τ) (p : Packet) (exists_ : Bool) : Except Fault (Daemon τ) :=
  if exists_ then do
    let (d, ptr) := d.createLocalSocket
    let s ← d.get ptr
    let d := d.set ptr
      { s with peer := some (.remote p.arg0 t) }
    ready (d.sendReady s.id p.arg0 t) ptr
  else
    .ok (d.sendClose 0 p.arg0 t)

/- The branch for `A_OKAY`. -/
def handleOkay (t : τ) (p : Packet) : Except Fault (Daemon τ) :=
  match d.findLocalSocket p.arg1 with
  | none => .ok d
  | some ptr => do
      let s ← d.get ptr
      let d := if s.peer.isNone then
          d.set ptr { s with peer := some (.remote p.arg0 t) }
        else d
      ready d ptr

/- The branch for `A_CLSE`. -/
def handleClse (p : Packet) : Except Fault (Daemon τ) :=
  match d.findLocalSocket p.arg1 with
  | none => .ok d
  | some ptr => close d ptr

/- The branch for `A_WRTE`. -/
def handleWrte (t : τ) (p : Packet) (answers : List Answer) : Except Fault (Daemon τ) :=
  match d.findLocalSocket p.arg1 with
  | none => .ok d
  | some ptr => do
      let s ← d.get ptr
      let d := d.emit [.receive ptr p.data]
      let (d, r) ← localSocketEnqueue d ptr p.data answers
      if r = 0 then return d.sendReady s.id p.arg0 t
      else return d

def handlePacket (cfg : Config) (d : Daemon τ) (t : τ) (p : Packet)
    (answers : List Answer) (exists_ : Bool) : Except Fault (Daemon τ) :=
  let online := d.connectionState t != .offline
  match p.command with
  | .sync =>
    if p.arg0 ≠ 0 then
      let d := d.sendPacket p t
      .ok (if cfg.host then sendConnect cfg d t else d)
    else do
      let d ← handleOffline (d.setState t .offline) t
      return d.sendPacket p t
  | .cnxn => do
      let d ← takeOffline d t
      let d := d.setState t (parseBanner p.data)
      return if cfg.host then d else sendConnect cfg d t
  | .opens => if online then handleOpen d t p exists_ else .ok d
  | .okay => if online then handleOkay d t p else .ok d
  | .clse => if online then handleClse d p else .ok d
  | .wrte => if online then handleWrte d t p answers else .ok d
  | .other => .ok d

end

------
-- Sockets Of Other Transports
------

variable {τ : Type}

/-
  The transport of the stream of a socket. While the stream is not open at the other end, the socket
  has no peer.
-/
def Socket.streamTransport (s : Socket τ) : Option τ :=
  match s.peer with
  | some (.remote _ t) => some t
  | none => s.transport
  | some (.socket _) => none
  | some .smart => none
  | some .freed => none

/- The stream of the socket is on another transport. -/
def Foreign (t : τ) (s : Socket τ) : Prop :=
  ∃ other, s.streamTransport = some other ∧ other ≠ t

/- The bytes that the descriptor of a socket took. -/
def Daemon.written (d : Daemon τ) (ptr : Nat) : Buffer :=
  d.effects.flatMap fun effect =>
    match effect with
    | .write p bytes => if p = ptr then bytes else []
    | _ => []

/- The socket is as before, and nothing was written to its descriptor. -/
structure Untouched (ptr : Nat) (d d' : Daemon τ) : Prop where
  socket : d'.sockets ptr = d.sockets ptr
  written : d'.written ptr = d.written ptr

/- The sockets of other transports are not touched. -/
def Isolated (t : τ) (d d' : Daemon τ) : Prop :=
  ∀ ptr s, d.sockets ptr = some s → Foreign t s → Untouched ptr d d'

/- The packet does nothing to the socket that it is for. -/
def Harmless (p : Packet) (s : Socket τ) : Prop :=
  match p.command with
  | .okay => s.peer ≠ none ∧ s.notify = false ∧ s.wantsRead = true
  | .wrte => s.queue = [] ∧ p.data = []
  | _ => False

/- The packet closes the socket that it is for. -/
def Closes (p : Packet) (answers : List Answer) (s : Socket τ) : Prop :=
  match p.command with
  | .clse => True
  | .wrte =>
    s.queue = [] ∧ (writeOut false p.data answers).stop = .failed
  | _ => False

/-
  Neither the socket that the packet is for, if the packet does something to it, nor the local peer
  that is closed with it is one of another transport.
-/
def Spares (d : Daemon τ) (t : τ) (p : Packet) (answers : List Answer) : Prop :=
  ∀ ptr s, d.findLocalSocket p.arg1 = some ptr →
    d.sockets ptr = some s → (Foreign t s → Harmless p s) ∧
      (Closes p answers s → ∀ other r, s.peer = some (.socket other) →
          d.sockets other = some r → ¬ Foreign t r)

variable {d : Daemon τ} {t : τ} {s : Socket τ} {ptr : Nat}

theorem Foreign.peer_ne (hForeign : Foreign t s) :
    s.peer ≠ some .freed ∧ ∀ other, s.peer ≠ some (.socket other) := by
  rcases hForeign with ⟨t', hT, _⟩
  constructor
  · intro hPeer
    simp [Socket.streamTransport, hPeer] at hT
  · intro other hPeer
    simp [Socket.streamTransport, hPeer] at hT

theorem written_write (d : Daemon τ) (ptr : Nat) (bytes : Buffer) :
    (d.emit [.write ptr bytes]).written ptr = d.written ptr ++ bytes := by
  simp [Daemon.written, Daemon.emit]

theorem written_write_of_ne {g : Nat} (hG : g ≠ ptr) (d : Daemon τ) (bytes : Buffer) :
    (d.emit [.write ptr bytes]).written g = d.written g := by
  simp [Daemon.written, Daemon.emit, hG.symm]

theorem written_sendPacket (d : Daemon τ) (p : Packet) (t : τ) (g : Nat) :
    (d.sendPacket p t).written g = d.written g := by
  simp [Daemon.written, Daemon.sendPacket, Daemon.emit]

theorem written_receive (d : Daemon τ) (ptr : Nat) (data : Buffer) (g : Nat) :
    (d.emit [.receive ptr data]).written g = d.written g := by
  simp [Daemon.written, Daemon.emit]

/- A loop of writes that is done has written all. -/
theorem wrote_of_done {retry : Bool} {data : Buffer} {answers : List Answer}
    (hDone : (writeOut retry data answers).stop = .done) :
    (writeOut retry data answers).wrote = data := by
  fun_induction writeOut retry data answers with
  | case1 => rfl
  | case3 data n answers _ k rest ih =>
    change data.take k ++ rest.wrote = data
    rw [ih hDone]
    exact take_append_drop k data
  | case5 _ _ _ _ ih => exact ih hDone
  | _ => cases hDone

theorem get_bind {α : Type} {f : Socket τ → Except Fault α} {P : α → Prop}
    (hF : ∀ s, d.sockets ptr = some s → Ensures (f s) P) : Ensures (d.get ptr >>= f) P := by
  unfold Daemon.get
  split
  next s hS => exact hF s hS
  next => exact .error

theorem socket_of_find {id : Nat} (hFind : d.findLocalSocket id = some ptr) :
    ∃ s, d.sockets ptr = some s := by
  have hHas := find?_some hFind
  cases hS : d.sockets ptr with
  | none => simp [hS] at hHas
  | some s => exact ⟨s, rfl⟩

theorem get_eq (hS : d.sockets ptr = some s) : d.get ptr = .ok s := by
  unfold Daemon.get
  rw [hS]

------
-- What Closing Changes
------

/- The socket is freed, or it is closing now. -/
def Gone (d : Daemon τ) (ptr : Nat) (s : Socket τ) : Prop :=
  ∀ r, d.sockets ptr = some r → r.closing ≠ s.closing

theorem Gone.ne (hGone : Gone d ptr s) : d.sockets ptr ≠ some s :=
  fun hEq => hGone s hEq rfl

theorem Untouched.trans {d₁ d₂ : Daemon τ} (hFirst : Untouched ptr d d₁)
    (hSecond : Untouched ptr d₁ d₂) : Untouched ptr d d₂ :=
  ⟨hSecond.socket.trans hFirst.socket, hSecond.written.trans hFirst.written⟩

theorem finishClose_frame (d : Daemon τ) {g : Nat} (hG : g ≠ ptr) :
    Ensures (finishClose d ptr) (Untouched g d) := by
  apply get_bind
  intro s _
  refine .either (.ok ⟨update_of_ne hG .., rfl⟩) ?_
  exact .ok ⟨update_of_ne hG .., rfl⟩

theorem isolated_refl (t : τ) : Ensures (.ok d) (Isolated t d) :=
  .ok fun _ _ _ _ => ⟨rfl, rfl⟩

section

variable (hS : d.sockets ptr = some s)

include hS

theorem finishClose_spec :
    ∃ d', finishClose d ptr = .ok d' ∧ Gone d' ptr s ∧
      ∀ g, g ≠ ptr → d'.sockets g = d.sockets g := by
  unfold finishClose
  rw [get_eq hS, ok_bind]
  by_cases hDone : s.closing = true ∨ s.queue = []
  · rw [if_pos hDone]
    refine ⟨_, rfl, ?_, ?_⟩
    · intro r hR
      simp [localSocketDestroy] at hR
    · intro g hG
      exact update_of_ne hG ..
  · rw [if_neg hDone]
    refine ⟨_, rfl, ?_, ?_⟩
    · intro r hR
      have hOpen : s.closing = false := by simpa using fun h => hDone (.inl h)
      simp only [Daemon.set, update_self, Option.some.injEq] at hR
      rw [← hR, hOpen]
      simp
    · intro g hG
      exact update_of_ne hG ..

/- The peer is told, and the socket is gone. -/
theorem localSocketCloseLocked_spec (hPeer : s.peer ≠ some .freed)
    (hLocal : ∀ other, s.peer ≠ some (.socket other)) :
    ∃ d', localSocketCloseLocked d ptr = .ok d' ∧ Gone d' ptr s ∧
      ∀ g, g ≠ ptr → d'.sockets g = d.sockets g := by
  have hClosed : ∃ d₁ s₁, closePeer d ptr = .ok d₁ ∧
      d₁.sockets ptr = some s₁ ∧ s₁.closing = s.closing ∧
      ∀ g, g ≠ ptr → d₁.sockets g = d.sockets g := by
    unfold closePeer
    rw [get_eq hS, ok_bind]
    have hFreed : ∀ g, g ≠ ptr → (d.set ptr { s with peer := some .freed }).sockets g =
        d.sockets g :=
      fun g hG => update_of_ne hG ..
    cases hP : s.peer with
    | none => exact ⟨d, s, rfl, hS, rfl, fun _ _ => rfl⟩
    | some peer =>
      cases peer with
      | remote id t | smart => exact ⟨_, _, rfl, update_self .., rfl, hFreed⟩
      | socket other => exact absurd hP (hLocal other)
      | freed => exact absurd hP hPeer
  rcases hClosed with ⟨d₁, s₁, hRun, hS₁, hClosing, hRest₁⟩
  rcases finishClose_spec hS₁ with ⟨d', hFinish, hGone, hRest⟩
  refine ⟨d', ?_, ?_, ?_⟩
  · unfold localSocketCloseLocked
    rw [hRun, ok_bind, hFinish]
  · intro r hR
    rw [← hClosing]
    exact hGone r hR
  · intro g hG
    rw [hRest g hG, hRest₁ g hG]

/- The local peer is gone with the socket. -/
theorem localSocketCloseLocked_local {other : Nat} {r : Socket τ}
    (hPeer : s.peer = some (.socket other)) (hNe : other ≠ ptr) (hR : d.sockets other = some r) :
    ∃ d', localSocketCloseLocked d ptr = .ok d' ∧ Gone d' other r := by
  rcases finishClose_spec (d := d.set other { r with peer := none }) (update_self ..) with
    ⟨d₁, hFirst, hGone, hRest⟩
  have hS₁ : d₁.sockets ptr = some s := by
    rw [hRest ptr hNe.symm]
    exact (update_of_ne hNe.symm ..).trans hS
  rcases finishClose_spec hS₁ with ⟨d', hSecond, _, hRest'⟩
  refine ⟨d', ?_, ?_⟩
  · unfold localSocketCloseLocked closePeer
    rw [get_eq hS, ok_bind, hPeer]
    simp only [get_eq hR, ok_bind, hFirst]
    exact hSecond
  · intro q hQ
    rw [hRest' other hNe] at hQ
    exact hGone q hQ

theorem localSocketCloseLocked_frame {g : Nat} (hG : g ≠ ptr) (hPeer : s.peer ≠ some (.socket g)) :
    Ensures (localSocketCloseLocked d ptr) (Untouched g d) := by
  have hClosed : Ensures (closePeer d ptr) (Untouched g d) := by
    unfold closePeer
    rw [get_eq hS, ok_bind]
    cases hP : s.peer with
    | none => exact .ok ⟨rfl, rfl⟩
    | some peer =>
      cases peer with
      | remote id t => exact .ok ⟨update_of_ne hG .., written_sendPacket ..⟩
      | smart => exact .ok ⟨update_of_ne hG .., rfl⟩
      | freed => exact .error
      | socket other =>
        have hOther : g ≠ other := by
          intro hEq
          rw [hEq] at hPeer
          exact hPeer hP
        apply get_bind
        intro r _
        exact (finishClose_frame _ hOther).imp fun d' => .trans ⟨update_of_ne hOther .., rfl⟩
  refine .bind hClosed ?_
  intro d₁ hFirst
  exact (finishClose_frame d₁ hG).imp fun d' => hFirst.trans

/- A socket that notifies tells so, and closes as others. -/
theorem close_eq :
    ∃ d₁ s₁, close d ptr = localSocketCloseLocked d₁ ptr ∧
      d₁.sockets ptr = some s₁ ∧ s₁.peer = s.peer ∧ s₁.closing = s.closing ∧
      ∀ g, g ≠ ptr → Untouched g d d₁ := by
  unfold close
  rw [get_eq hS, ok_bind]
  by_cases hNotify : s.notify = true
  · rw [if_pos hNotify]
    exact ⟨_, { s with notify := false }, rfl, update_self .., rfl, rfl,
      fun g hG => ⟨update_of_ne hG .., written_write_of_ne hG ..⟩⟩
  · rw [if_neg hNotify]
    exact ⟨d, s, rfl, hS, rfl, rfl, fun _ _ => ⟨rfl, rfl⟩⟩

/- The local peer of the socket is none of another transport. -/
def PeerSpared (d : Daemon τ) (t : τ) (s : Socket τ) : Prop :=
  ∀ other r, s.peer = some (.socket other) → d.sockets other = some r → ¬ Foreign t r

/-
  Closing spares the sockets of other transports exactly if neither the socket nor its local peer is
  one of them. Something may have been written to the socket before.
-/
theorem close_spec {d₀ : Daemon τ} (hSockets : d.sockets = d₀.sockets)
    (hWritten : ∀ g, g ≠ ptr → d.written g = d₀.written g) (t : τ) :
    Ensures (close d ptr) (Isolated t d₀) ↔ ¬ Foreign t s ∧ PeerSpared d t s := by
  rcases close_eq hS with ⟨d₁, s₁, hRun, hS₁, hPeer, hClosing, hRest⟩
  unfold Isolated
  simp only [hRun, ← hSockets]
  constructor
  · intro hIsolated
    have hOwn : ¬ Foreign t s := by
      intro hForeign
      rcases hForeign.peer_ne with ⟨hFreed, hLocal⟩
      rw [← hPeer] at hFreed hLocal
      rcases localSocketCloseLocked_spec hS₁ hFreed hLocal with ⟨d', hClose, hGone, _⟩
      have hKept := (hIsolated d' hClose ptr s hS hForeign).socket
      rw [← hSockets, hS] at hKept
      exact hGone s hKept hClosing.symm
    refine ⟨hOwn, ?_⟩
    intro other r hLocal hR hForeign
    have hNe : other ≠ ptr := by
      intro hEq
      rw [hEq, hS] at hR
      cases hR
      exact hOwn hForeign
    rcases localSocketCloseLocked_local hS₁ (hPeer.trans hLocal) hNe
      ((hRest other hNe).socket.trans hR) with ⟨d', hClose, hGone⟩
    have hKept := (hIsolated d' hClose other r hR hForeign).socket
    rw [← hSockets, hR] at hKept
    exact hGone.ne hKept
  · rintro ⟨hOwn, hLocal⟩ d' hClose g r hR hForeign
    have hG : g ≠ ptr := by
      intro hEq
      rw [hEq, hS] at hR
      cases hR
      exact hOwn hForeign
    have hFrame := localSocketCloseLocked_frame hS₁ hG
      (fun h => hLocal g r (hPeer.symm.trans h) hR hForeign)
      d' hClose
    have hStart : Untouched g d₀ d := ⟨congrFun hSockets g, hWritten g hG⟩
    exact hStart.trans ((hRest g hG).trans hFrame)

------
-- What Packets Change
------

/- One socket is changed, or something is written to it. -/
theorem isolated_update_iff {d' : Daemon τ} (s' : Socket τ)
    (hUpdate : d'.sockets = update d.sockets ptr (some s'))
    (hWritten : ∀ g, g ≠ ptr → d'.written g = d.written g) (t : τ) :
    Ensures (.ok d') (Isolated t d) ↔
      (Foreign t s → s' = s ∧ d'.written ptr = d.written ptr) := by
  constructor
  · intro hIsolated hForeign
    have hKept := hIsolated d' rfl ptr s hS hForeign
    have hSame := hKept.socket
    rw [hUpdate, update_self, hS] at hSame
    exact ⟨Option.some.inj hSame, hKept.written⟩
  · intro hSame
    apply Ensures.ok
    intro g r hR hForeign
    by_cases hG : g = ptr
    · rw [hG, hS] at hR
      cases hR
      rcases hSame hForeign with ⟨hEq, hNone⟩
      rw [hG]
      exact ⟨by rw [hUpdate, update_self, hEq, hS], hNone⟩
    · exact ⟨by rw [hUpdate, update_of_ne hG], hWritten g hG⟩

theorem ready_spec :
    ∃ d', ready d ptr = .ok d' ∧ d'.sockets = update d.sockets ptr
      (some { s with notify := false, wantsRead := true }) ∧
      (∀ g, g ≠ ptr → d'.written g = d.written g) ∧
      (s.notify = false → d'.written ptr = d.written ptr) := by
  unfold ready
  rw [get_eq hS, ok_bind]
  refine ⟨_, rfl, ?_⟩
  by_cases hNotify : s.notify = true
  · simp only [if_pos hNotify]
    refine ⟨rfl, fun g hG => written_write_of_ne hG .., ?_⟩
    simp [hNotify]
  · simp only [if_neg hNotify]
    exact ⟨rfl, fun _ _ => rfl, fun _ => rfl⟩

variable {p : Packet} {answers : List Answer} (hFind : d.findLocalSocket p.arg1 = some ptr)

include hFind

theorem spares_iff :
    Spares d t p answers ↔ (Foreign t s → Harmless p s) ∧
      (Closes p answers s → PeerSpared d t s) := by
  constructor
  · intro hSpares
    exact hSpares ptr s hFind hS
  · intro hSocket ptr' s' hFind' hS'
    rw [hFind] at hFind'
    cases hFind'
    rw [hS] at hS'
    cases hS'
    exact hSocket

theorem handleOkay_spec :
    Ensures (handleOkay d t p) (Isolated t d) ↔ (Foreign t s → s.peer ≠ none ∧ s.notify = false ∧
      s.wantsRead = true) := by
  have hRun : ∃ d', handleOkay d t p = .ok d' ∧ d'.sockets = update d.sockets ptr
      (some { s with
        peer := if s.peer.isNone then some (.remote p.arg0 t)
          else s.peer
        notify := false
        wantsRead := true }) ∧ (∀ g, g ≠ ptr → d'.written g = d.written g) ∧
      (s.notify = false → d'.written ptr = d.written ptr) := by
    unfold handleOkay
    rw [hFind]
    simp only [get_eq hS, ok_bind]
    by_cases hNone : s.peer.isNone = true
    · simp only [if_pos hNone]
      rcases ready_spec (d := d.set ptr { s with peer := some (.remote p.arg0 t) })
        (update_self ..) with ⟨d', hReady, hSame, hOthers, hOwn⟩
      exact ⟨d', hReady, hSame.trans (update_idem ..), hOthers, hOwn⟩
    · simp only [if_neg hNone]
      exact ready_spec hS
  rcases hRun with ⟨d', hRun, hUpdate, hOthers, hOwn⟩
  rw [hRun, isolated_update_iff hS _ hUpdate hOthers t]
  apply imp_congr_right
  intro _
  constructor
  · rintro ⟨hEq, -⟩
    have hPeer := congrArg Socket.peer hEq
    have hNotify := congrArg Socket.notify hEq
    have hReads := congrArg Socket.wantsRead hEq
    refine ⟨?_, hNotify.symm, hReads.symm⟩
    intro hNone
    simp [hNone] at hPeer
  · rintro ⟨hPeer, hNotify, hReads⟩
    have hSome : ¬ s.peer.isNone = true := by simpa using hPeer
    refine ⟨?_, hOwn hNotify⟩
    rw [if_neg hSome]
    cases s
    cases hNotify
    cases hReads
    rfl

theorem handleWrte_spec (hCommand : p.command = .wrte) :
    Ensures (handleWrte d t p answers) (Isolated t d) ↔ (Foreign t s → Harmless p s) ∧
      (Closes p answers s → PeerSpared d t s) := by
  have hTaken : (d.emit [.receive ptr p.data]).get ptr = .ok s := get_eq hS
  simp only [Harmless, Closes, hCommand]
  unfold handleWrte localSocketEnqueue
  rw [hFind]
  simp only [get_eq hS, hTaken, ok_bind]
  by_cases hQueue : s.queue = []
  · simp only [hQueue, ne_eq, not_true_eq_false, if_false, true_and]
    have hDone : (writeOut false p.data answers).stop = .done →
        (writeOut false p.data answers).wrote = p.data := wrote_of_done
    have hNothing : p.data = [] → (writeOut false p.data answers).stop = .done := by
      intro hData
      rw [hData, writeOut]
    generalize writeOut false p.data answers = w at hDone hNothing ⊢
    let waiting := { s with queue := [w.left], wantsWrite := true }
    have hWaits : waiting ≠ s := fun hEq => by
      simpa [hQueue, waiting] using congrArg Socket.queue hEq
    have hOthers : ∀ g, g ≠ ptr →
        ((d.emit [.receive ptr p.data]).emit [.write ptr w.wrote]).written g = d.written g :=
      fun g hG => (written_write_of_ne hG ..).trans (written_receive ..)
    cases hStop : w.stop with
    | done =>
      refine (isolated_update_iff hS s ?_ ?_ t).trans ?_
      · rw [← hS, update_eq_self]
        rfl
      · intro g hG
        exact (written_sendPacket ..).trans (hOthers g hG)
      · simp [Daemon.sendReady, written_sendPacket, written_write, written_receive, hDone hStop]
    | again =>
      have hData : p.data ≠ [] := by
        intro hNone
        cases hStop.symm.trans (hNothing hNone)
      refine (isolated_update_iff hS waiting ?_ ?_ t).trans ?_
      · rfl
      · exact hOthers
      · simp [hWaits, hData]
    | failed =>
      have hData : p.data ≠ [] := by
        intro hNone
        cases hStop.symm.trans (hNothing hNone)
      have hSame : ((d.emit [.receive ptr p.data]).emit [.write ptr w.wrote]).sockets =
        d.sockets := rfl
      have hClose := close_spec (d := (d.emit [.receive ptr p.data]).emit [.write ptr w.wrote])
        hS hSame hOthers t
      refine Iff.trans ?_ (hClose.trans ?_)
      · cases close _ ptr with
        | error fault | ok d' => exact Iff.rfl
      · simp only [hData, imp_false, true_implies]
        exact Iff.rfl
  · let longer := { s with queue := s.queue ++ [p.data], wantsWrite := true }
    have hLonger : longer ≠ s := fun hEq => by simpa [longer] using congrArg Socket.queue hEq
    simp only [ne_eq, hQueue, not_false_eq_true, if_true, false_and]
    refine (isolated_update_iff hS longer ?_ ?_ t).trans ?_
    · rfl
    · intro g _
      exact written_receive d ptr p.data g
    · simp [hLonger]

end

/- A stream on one of two transports. -/
def twoTransports : Daemon Bool :=
  { sockets := fun ptr =>
      if ptr = 0 then
        some
          { id := 1
            closing := false
            peer := some (.remote 7 true)
            wantsRead := true
            wantsWrite := false
            queue := []
            notify := false
            transport := none }
      else none
    localSocketList := [0]
    localSocketNextId := 2
    heap := 1
    connectionState := fun _ => .device
    effects := [] }

end OpenIvi.Adb
