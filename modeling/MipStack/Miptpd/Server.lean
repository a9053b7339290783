import MipStack.Miptpd.AppController
import MipStack.Library.Reach

/-!
# The main loop of miptpd (`miptp_server.c`), and how its clients are kept apart

* `MIPTPEvent`           the head of the loop, or one event: bytes from mipd, a connection attempt,
                         bytes of a client, a line on stdin;
* `handleEvent`          what the loop does with it;
* `Undisturbed`          the loop goes on; bytes of a client leave the connections on other sockets as
                         they are, and data is decoded from nothing but the bytes received;
* `Acceptable bytes`     port, destination and size as they should be, and no receiver;
* `Tolerable s ev`       bytes of a client are acceptable; at the head of the loop no package of a
                         window has more than 1490 bytes;
* `clients_isolated_iff` **a run is undisturbed exactly as long as its events are tolerable**;
* `clients_isolated_of_small`   so it is when every client sends acceptable packages of at most 1490
                         bytes;
* `client_ends_daemon`   a client that asks for a receiver, and two that send nonsense.

The head of the loop comes before every batch of events; here it may come at any time while the
server is running.  System calls and allocation succeed, and connections lie at addresses below
2 ^ 31 (`AppConnection.lean`).
-/

namespace MipStack
open Library

def PACKET_BUFFER_SIZE : ℕ := 65535

/-- what one `read` gives -/
abbrev ReadBytes := { bytes : List UInt8 // bytes.length ≤ PACKET_BUFFER_SIZE }

/-- the buffer is cleared before every `read` -/
def ReadBytes.readBuffer (bytes : ReadBytes) : List UInt8 := bytes.1.takeD PACKET_BUFFER_SIZE 0

structure MIPTPServer where
  running : Bool
  appController : MIPTPAppController
  deriving DecidableEq

inductive MIPTPEvent
  | poll
  /-- `memory` gives the bytes that can be read from an address on -/
  | mipd (bytes : ReadBytes) (memory : ℕ → List UInt8)
  | connect (newSocket : ℕ)
  | application (socket : ℕ) (bytes : ReadBytes) (now : ℤ)
  | stdin (bytes : ReadBytes)

namespace MIPTPServer

def create : MIPTPServer := ⟨true, MIPTPAppController.create⟩

/-- the check after a handler has returned -/
def checkRc (s : MIPTPServer) (result : ℤ × MIPTPAppController) : Except Fault MIPTPServer :=
  if result.1 ≠ -1 then .ok { s with appController := result.2 } else .error .errorExit

/-- the buffer itself is taken for a `MIPDMessage`: an address, the data size from byte 2 on, and a
pointer from byte 8 on -/
def handleMipdData (s : MIPTPServer) (buffer : List UInt8) (memory : ℕ → List UInt8) :
    Except Fault MIPTPServer :=
  let dataSize := UInt16.ofNat (ofLe ((buffer.drop 2).take 2))
  let data := memory (ofLe ((buffer.drop 8).take 8))
  match s.appController.handleMipdPackage (buffer.headD 0) dataSize data with
  | .error f => .error f
  | .ok result => s.checkRc result

/-- "stop" and a newline -/
def stopCommand : List UInt8 := [115, 116, 111, 112, 10]

/-- the server after the event, and the messages sent to mipd -/
def handleEvent (s : MIPTPServer) : MIPTPEvent → Except Fault (MIPTPServer × List MIPDMessage)
  | .poll => s.appController.handleOutgoing.map fun x => ({ s with appController := x.1 }, x.2)
  | .mipd bytes memory =>
    if bytes.1.length = 0 then .ok ({ s with running := false }, [])
    else (s.handleMipdData bytes.readBuffer memory).map fun s => (s, [])
  | .connect newSocket =>
    match s.appController.handleConnection newSocket with
    | none => .error .errorExit
    | some controller => .ok ({ s with appController := controller }, [])
  | .application socket bytes now =>
    if s.appController.isAConnection socket then
      if bytes.1.length = 0 then
        .ok ({ s with appController := s.appController.disconnect socket }, [])
      else
        match s.appController.handleAppPackage socket bytes.readBuffer now with
        | .error f => .error f
        | .ok result => (s.checkRc result).map fun s => (s, [])
    else .ok (s, [])
  | .stdin bytes =>
    if bytes.readBuffer.take 5 = stopCommand then .ok ({ s with running := false }, [])
    else .ok (s, [])

end MIPTPServer

/-- one event; a fault is final, and the head of the loop is the place where the loop ends -/
def MIPTPStep (r : Except Fault MIPTPServer) (ev : MIPTPEvent) (r' : Except Fault MIPTPServer) :
    Prop :=
  ∃ s, r = .ok s ∧ (ev = .poll → s.running = true) ∧ r' = (s.handleEvent ev).map Prod.fst

/-! ## isolation -/

namespace MIPTPServer

def connections (s : MIPTPServer) : List AppConnection := s.appController.connections

/-- the client on the socket is connected and has written something, which is read as the package -/
def Decodes (s : MIPTPServer) (socket : ℕ) (bytes : ReadBytes) (package : ClientPackage) : Prop :=
  s.appController.isAConnection socket = true ∧ bytes.1.length ≠ 0 ∧
    ClientPackage.deserialize bytes.readBuffer = .ok package

structure Isolated (s : MIPTPServer) (socket : ℕ) (bytes : ReadBytes) (s' : MIPTPServer) : Prop where
  running : s'.running = s.running
  others : others AppConnection.socket socket s'.connections
    = others AppConnection.socket socket s.connections
  data : ∀ package, s.Decodes socket bytes package → package.data.1 <+: bytes.1.drop 9

/-- packages from mipd are not the clients' affair -/
def Undisturbed (s : MIPTPServer) (r : Except Fault MIPTPServer) : MIPTPEvent → Prop
  | .application socket bytes _ => ∃ s', r = .ok s' ∧ s.Isolated socket bytes s'
  | .poll => ∃ s', r = .ok s'
  | .connect _ => ∃ s', r = .ok s'
  | .stdin _ => ∃ s', r = .ok s'
  | .mipd _ _ => True

end MIPTPServer

structure Acceptable (bytes : ReadBytes) : Prop where
  port : ClientPackage.serializedGetPort bytes.readBuffer > 0
  destination : ClientPackage.serializedGetDestination bytes.readBuffer > 0
  type : ClientPackage.serializedGetType bytes.readBuffer ≠ .MIPTP_RECEIVER
  size : (ClientPackage.serializedGetDataSize bytes.readBuffer).toNat = 0 ∨
    9 + (ClientPackage.serializedGetDataSize bytes.readBuffer).toNat ≤ bytes.1.length

def MIPTPServer.Tolerable (s : MIPTPServer) : MIPTPEvent → Prop
  | .application socket bytes _ =>
    s.appController.isAConnection socket = true → bytes.1.length ≠ 0 → Acceptable bytes
  | .poll => ∀ c ∈ s.connections, ∀ p ∈ c.window, p.data.length ≤ 1490
  | .connect _ => True
  | .stdin _ => True
  | .mipd _ _ => True

theorem ReadBytes.length_readBuffer (bytes : ReadBytes) : bytes.readBuffer.length = 65535 :=
  List.takeD_length _ _ _

/-- the declared size decides whether the data is what was received -/
theorem ReadBytes.getData_prefix_iff (bytes : ReadBytes)
    (h : 9 + (ClientPackage.serializedGetDataSize bytes.readBuffer).toNat ≤ 65535) :
    (ClientPackage.serializedGetData bytes.readBuffer).1 <+: bytes.1.drop 9 ↔
      (ClientPackage.serializedGetDataSize bytes.readBuffer).toNat = 0 ∨
        9 + (ClientPackage.serializedGetDataSize bytes.readBuffer).toNat ≤ bytes.1.length := by
  have hbuffer : bytes.readBuffer
      = bytes.1 ++ List.replicate (PACKET_BUFFER_SIZE - bytes.1.length) 0 :=
    takeD_eq_append 0 bytes.1 bytes.2
  have hlen := bytes.length_readBuffer
  show (bytes.readBuffer.drop 9).take _ <+: _ ↔ _
  generalize (ClientPackage.serializedGetDataSize bytes.readBuffer).toNat = n at h
  rw [hbuffer] at hlen ⊢
  exact take_drop_append_prefix_iff bytes.1 _ (by omega)

theorem Acceptable.registers {bytes : ReadBytes} (h : Acceptable bytes) :
    MIPTPAppController.Registers bytes.readBuffer := by
  refine ⟨h.port, h.destination, h.type, ?_⟩
  have hlen : bytes.1.length ≤ 65535 := bytes.2
  rw [bytes.length_readBuffer]
  have := h.size
  omega

namespace MIPTPServer
variable {limit : ℕ} {s : MIPTPServer}

def WellFormed (limit : ℕ) (s : MIPTPServer) : Prop := s.appController.WellFormed limit

theorem wellFormed_create (limit : ℕ) : create.WellFormed limit :=
  List.forall_mem_nil _

theorem handleEvent_application {socket : ℕ} (hconn : s.appController.isAConnection socket = true)
    {bytes : ReadBytes} (hlen : bytes.1.length ≠ 0) (now : ℤ) :
    s.handleEvent (.application socket bytes now) =
      match s.appController.handleAppPackage socket bytes.readBuffer now with
      | .error f => .error f
      | .ok result => (s.checkRc result).map fun s => (s, []) := by
  rw [handleEvent, if_pos hconn, if_neg hlen]

/-- a package that is not in order ends the daemon, or is read from outside the buffer -/
theorem handleEvent_application_error {socket : ℕ}
    (hconn : s.appController.isAConnection socket = true) {bytes : ReadBytes}
    (hlen : bytes.1.length ≠ 0) (now : ℤ)
    (h : ¬ MIPTPAppController.Registers bytes.readBuffer) :
    s.handleEvent (.application socket bytes now) =
      if 9 + (ClientPackage.serializedGetDataSize bytes.readBuffer).toNat ≤ 65535
      then .error .errorExit else .error .outOfBounds := by
  rw [handleEvent_application hconn hlen, ← bytes.length_readBuffer]
  by_cases hsize : 9 + (ClientPackage.serializedGetDataSize bytes.readBuffer).toNat
      ≤ bytes.readBuffer.length
  · rw [if_pos hsize, MIPTPAppController.handleAppPackage_rejected h hsize hconn]
    rfl
  · rw [if_neg hsize, MIPTPAppController.handleAppPackage_outOfBounds (Nat.not_le.mp hsize)]

/-- what an acceptable package does -/
theorem handleEvent_acceptable {socket : ℕ} (hconn : s.appController.isAConnection socket = true)
    {bytes : ReadBytes} (h : MIPTPAppController.Registers bytes.readBuffer)
    (hlen : bytes.1.length ≠ 0) (now : ℤ) :
    ∃ complete : AppConnection, complete.socket = socket ∧
      complete.WellFormed (ClientPackage.serializedGetDataSize bytes.readBuffer).toNat ∧
      s.handleEvent (.application socket bytes now) = .ok ({ s with appController :=
        { s.appController with connections := put AppConnection.socket complete s.connections } },
        []) := by
  obtain ⟨complete, hsocket, hwell, hhandle⟩ := h.handleAppPackage hconn now
  refine ⟨complete, hsocket, hwell, ?_⟩
  rw [handleEvent_application hconn hlen, hhandle]
  rfl

/-- **Bytes of a client.**  They leave the other clients alone and are decoded from what was received
if and only if they are acceptable. -/
theorem undisturbed_application_iff (socket : ℕ) (bytes : ReadBytes) (now : ℤ) :
    s.Undisturbed ((s.handleEvent (.application socket bytes now)).map Prod.fst)
      (.application socket bytes now) ↔ s.Tolerable (.application socket bytes now) := by
  by_cases hconn : s.appController.isAConnection socket = true
  swap
  · have hs : s.handleEvent (.application socket bytes now) = .ok (s, []) := by
      rw [handleEvent, if_neg hconn]
    rw [hs]
    exact iff_of_true ⟨s, rfl, rfl, rfl, fun _ h => absurd h.1 hconn⟩ fun h => absurd h hconn
  by_cases hlen : bytes.1.length = 0
  · have hs : s.handleEvent (.application socket bytes now)
        = .ok ({ s with appController := s.appController.disconnect socket }, []) := by
      rw [handleEvent, if_pos hconn, if_pos hlen]
    rw [hs]
    exact iff_of_true ⟨_, rfl, rfl, others_erase socket s.connections, fun _ h => absurd hlen h.2.1⟩
      fun _ h => absurd hlen h
  have hiff : s.Tolerable (.application socket bytes now) ↔ Acceptable bytes :=
    ⟨fun h => h hconn hlen, fun h _ _ => h⟩
  rw [hiff]
  constructor
  · intro h
    obtain ⟨s', hs', hisolated⟩ := h
    have hreg : MIPTPAppController.Registers bytes.readBuffer := by
      by_contra hreg
      rw [handleEvent_application_error hconn hlen now hreg] at hs'
      split at hs' <;> cases hs'
    have hsize : 9 + (ClientPackage.serializedGetDataSize bytes.readBuffer).toNat ≤ 65535 :=
      bytes.length_readBuffer ▸ hreg.size
    refine ⟨hreg.port, hreg.destination, hreg.type, (bytes.getData_prefix_iff hsize).mp ?_⟩
    exact hisolated.data _ ⟨hconn, hlen, if_pos hreg.size⟩
  · intro h
    have hreg := h.registers
    have hsize : 9 + (ClientPackage.serializedGetDataSize bytes.readBuffer).toNat ≤ 65535 :=
      bytes.length_readBuffer ▸ hreg.size
    obtain ⟨complete, rfl, _, hs⟩ := handleEvent_acceptable hconn hreg hlen now
    rw [hs]
    refine ⟨_, rfl, rfl, others_put complete s.connections, fun package hpackage => ?_⟩
    have hdecode := hpackage.2.2
    rw [ClientPackage.deserialize, if_pos hreg.size] at hdecode
    rw [← Except.ok.inj hdecode]
    exact (bytes.getData_prefix_iff hsize).mpr h.size

theorem undisturbed_poll_iff (h : s.WellFormed limit) :
    s.Undisturbed ((s.handleEvent .poll).map Prod.fst) .poll ↔ s.Tolerable .poll := by
  show (∃ s', (s.handleEvent .poll).map Prod.fst = .ok s') ↔ ∀ c ∈ s.appController.connections, _
  rw [← MIPTPAppController.WellFormed.handleOutgoing_iff h]
  exact exists_map_ok_iff.trans exists_map_ok_iff

theorem undisturbed_iff (h : s.WellFormed limit) (ev : MIPTPEvent) :
    s.Undisturbed ((s.handleEvent ev).map Prod.fst) ev ↔ s.Tolerable ev := by
  cases ev with
  | poll => exact undisturbed_poll_iff h
  | mipd bytes memory => exact Iff.rfl
  | connect newSocket => exact iff_of_true ⟨_, rfl⟩ trivial
  | application socket bytes now => exact undisturbed_application_iff socket bytes now
  | stdin bytes =>
    refine iff_of_true ?_ trivial
    simp only [handleEvent]
    split
    · exact ⟨_, rfl⟩
    · exact ⟨_, rfl⟩

/-- a client that is connected hands over at most so many bytes -/
def Within (s : MIPTPServer) (limit : ℕ) : MIPTPEvent → Prop
  | .application socket bytes _ =>
    s.appController.isAConnection socket = true → bytes.1.length ≠ 0 →
      (ClientPackage.serializedGetDataSize bytes.readBuffer).toNat ≤ limit
  | .poll => True
  | .connect _ => True
  | .stdin _ => True
  | .mipd _ _ => True

theorem within_max (s : MIPTPServer) (ev : MIPTPEvent) : s.Within 65535 ev := by
  cases ev with
  | application socket bytes now =>
    intro _ _
    exact Nat.le_of_lt_succ (UInt16.toNat_lt _)
  | poll => trivial
  | connect newSocket => trivial
  | stdin bytes => trivial
  | mipd bytes memory => trivial

theorem WellFormed.handleMipdData (h : s.WellFormed limit) {buffer : List UInt8}
    {memory : ℕ → List UInt8} {s' : MIPTPServer} (hs : s.handleMipdData buffer memory = .ok s') :
    s'.WellFormed limit := by
  simp only [MIPTPServer.handleMipdData] at hs
  split at hs
  · cases hs
  · rename_i result hresult
    obtain ⟨hrc, hwell⟩ := MIPTPAppController.WellFormed.handleMipdPackage h hresult
    rw [checkRc, if_pos (by rw [hrc]; decide)] at hs
    rw [← Except.ok.inj hs]
    exact hwell

/-- **What the daemon keeps**: senders have their job, with no more data than clients hand over, and
there are no receivers. -/
theorem WellFormed.handleEvent (h : s.WellFormed limit) {ev : MIPTPEvent} (hev : s.Within limit ev)
    {x : MIPTPServer × List MIPDMessage} (hx : s.handleEvent ev = .ok x) : x.1.WellFormed limit := by
  cases ev with
  | poll =>
    obtain ⟨y, hy, rfl⟩ := map_eq_ok_iff.mp hx
    show y.1.WellFormed limit
    rw [MIPTPAppController.WellFormed.handleOutgoing h hy]
    exact h
  | mipd bytes memory =>
    simp only [MIPTPServer.handleEvent] at hx
    split at hx
    · rw [← Except.ok.inj hx]
      exact h
    · obtain ⟨s', hs', rfl⟩ := map_eq_ok_iff.mp hx
      exact h.handleMipdData hs'
  | connect newSocket =>
    have hnew : AppConnection.createNotReady newSocket
        = some ⟨16383, newSocket, 0, .CONN_NOT_READY, none, none⟩ := rfl
    rw [← Except.ok.inj hx]
    exact MIPTPAppController.WellFormed.append h
      ((AppConnection.create_eq_some hnew).2.mono (Nat.zero_le limit)) (List.Sublist.refl _)
  | application socket bytes now =>
    by_cases hconn : s.appController.isAConnection socket = true
    swap
    · rw [MIPTPServer.handleEvent, if_neg hconn] at hx
      rw [← Except.ok.inj hx]
      exact h
    by_cases hlen : bytes.1.length = 0
    · rw [MIPTPServer.handleEvent, if_pos hconn, if_pos hlen] at hx
      rw [← Except.ok.inj hx]
      exact fun c hc => h c ((erase_sublist _ socket s.connections).mem hc)
    by_cases hreg : MIPTPAppController.Registers bytes.readBuffer
    · obtain ⟨complete, _, hwell, hs⟩ := handleEvent_acceptable hconn hreg hlen now
      rw [hs] at hx
      rw [← Except.ok.inj hx]
      exact MIPTPAppController.WellFormed.append h (hwell.mono (hev hconn hlen))
        (erase_sublist _ _ s.connections)
    · rw [handleEvent_application_error hconn hlen now hreg] at hx
      split at hx <;> cases hx
  | stdin bytes =>
    simp only [MIPTPServer.handleEvent] at hx
    split at hx
    · rw [← Except.ok.inj hx]
      exact h
    · rw [← Except.ok.inj hx]
      exact h

/-- small data makes small packages -/
theorem WellFormed.tolerable_poll (h : s.WellFormed 1490) : s.Tolerable .poll := by
  intro c hc p hp
  obtain ⟨job, _, hjob, hmem⟩ := AppConnection.mem_window hp
  exact (MIPTPSendJob.length_of_mem_nextPackages hmem).2.trans ((h c hc).data job hjob)

end MIPTPServer

/-! ## runs -/

def UndisturbedStep : Except Fault MIPTPServer → MIPTPEvent → Except Fault MIPTPServer → Prop
  | .ok s, ev, r => s.Undisturbed r ev
  | .error _, _, _ => True

def TolerableStep : Except Fault MIPTPServer → MIPTPEvent → Prop
  | .ok s, ev => s.Tolerable ev
  | .error _, _ => True

def WellFormedState (limit : ℕ) (r : Except Fault MIPTPServer) : Prop :=
  ∀ s, r = .ok s → s.WellFormed limit

theorem WellFormedState.step {limit : ℕ} {s : MIPTPServer} (h : WellFormedState limit (.ok s))
    {ev : MIPTPEvent} (hev : s.Within limit ev) :
    WellFormedState limit ((s.handleEvent ev).map Prod.fst) := by
  intro s' hs'
  obtain ⟨x, hx, rfl⟩ := map_eq_ok_iff.mp hs'
  exact MIPTPServer.WellFormed.handleEvent (h s rfl) hev hx

theorem wellFormedState_create (limit : ℕ) : WellFormedState limit (.ok MIPTPServer.create) := by
  intro s hs
  rw [← Except.ok.inj hs]
  exact MIPTPServer.wellFormed_create limit

/-- **How long clients are isolated.**  In a run of the daemon every event leaves the other clients
undisturbed if and only if every event is tolerable in the state in which it comes. -/
theorem clients_isolated_iff {tr : List (MIPTPEvent × Except Fault MIPTPServer)}
    (hr : Run MIPTPStep (.ok MIPTPServer.create) tr) :
    Always UndisturbedStep (.ok MIPTPServer.create) tr ↔
      Meets TolerableStep (.ok MIPTPServer.create) tr := by
  refine Run.always_iff (I := WellFormedState 65535) (fun r ev r' hI _ hstep => ?_)
    (fun r ev r' hI hstep => ?_) hr (wellFormedState_create 65535)
  · obtain ⟨s, rfl, _, rfl⟩ := hstep
    exact hI.step (s.within_max ev)
  · obtain ⟨s, rfl, _, rfl⟩ := hstep
    exact MIPTPServer.undisturbed_iff (hI s rfl) ev

/-- a sender to port 10 of address 5, with two bytes of data -/
def senderBytes : ReadBytes := ⟨[10, 0, 5, 1, 0, 0, 0, 2, 0, 72, 105], by decide⟩

/-- a receiver on port 10, as the enumeration of the types offers it -/
def receiverBytes : ReadBytes := ⟨[10, 0, 5, 2, 0, 0, 0, 0, 0], by decide⟩

def zeroPortBytes : ReadBytes := ⟨[0, 0, 5, 1, 0, 0, 0, 0, 0], by decide⟩

/-- a sender that declares 65535 bytes and sends none -/
def oversizedBytes : ReadBytes := ⟨[10, 0, 5, 1, 0, 0, 0, 255, 255], by decide⟩

def notReady (socket : ℕ) : AppConnection := ⟨16383, socket, 0, .CONN_NOT_READY, none, none⟩

def oneClient : MIPTPServer := ⟨true, ⟨[notReady 7], 10, 0⟩⟩

def twoClients : MIPTPServer := ⟨true, ⟨[notReady 7, notReady 8], 10, 0⟩⟩

theorem run_twoClients (socket : ℕ) (bytes : ReadBytes) : Run MIPTPStep (.ok MIPTPServer.create)
    [(.connect 7, .ok oneClient), (.connect 8, .ok twoClients), (.application socket bytes 0,
      (twoClients.handleEvent (.application socket bytes 0)).map Prod.fst)] :=
  Run.cons ⟨_, rfl, nofun, rfl⟩ (Run.cons ⟨_, rfl, nofun, rfl⟩ (Run.cons ⟨_, rfl, nofun, rfl⟩
    (Run.nil _)))

theorem acceptable_senderBytes : Acceptable senderBytes :=
  ⟨by decide, by decide, by decide, by decide⟩

theorem clients_isolated_sender : ∃ tr, Run MIPTPStep (.ok MIPTPServer.create) tr ∧
    Always UndisturbedStep (.ok MIPTPServer.create) tr ∧ tr.length = 3 :=
  ⟨_, run_twoClients 7 senderBytes, (clients_isolated_iff (run_twoClients 7 senderBytes)).mpr
    ⟨trivial, trivial, fun _ _ => acceptable_senderBytes, trivial⟩, rfl⟩

/-- the connection that the client with these bytes gets -/
def twoBytesSender : AppConnection :=
  ⟨10, 7, 5, .CONN_SENDER, some (MIPTPSendJob.create 10 5 ⟨[72, 105], by decide⟩ 0 0), none⟩

def oneSender : MIPTPServer := ⟨true, ⟨[twoBytesSender], 10, 0⟩⟩

theorem handleEvent_senderBytes :
    oneClient.handleEvent (.application 7 senderBytes 0) = .ok (oneSender, []) := by
  have hpackage : ClientPackage.deserialize senderBytes.readBuffer = .ok _ :=
    if_pos acceptable_senderBytes.registers.size
  have hlen : senderBytes.1.length ≠ 0 := by decide
  rw [MIPTPServer.handleEvent_application rfl hlen,
    MIPTPAppController.handleAppPackage_replaced hpackage
      ⟨acceptable_senderBytes.port, acceptable_senderBytes.destination⟩ rfl rfl]
  rfl

/-- **One client ends the daemon for all**: with a receiver, with port 0, and with a size that goes
beyond the buffer. -/
theorem client_ends_daemon :
    Run MIPTPStep (.ok MIPTPServer.create) [(.connect 7, .ok oneClient),
      (.connect 8, .ok twoClients), (.application 8 receiverBytes 0, .error .errorExit)] ∧
    Run MIPTPStep (.ok MIPTPServer.create) [(.connect 7, .ok oneClient),
      (.connect 8, .ok twoClients), (.application 8 zeroPortBytes 0, .error .errorExit)] ∧
    Run MIPTPStep (.ok MIPTPServer.create) [(.connect 7, .ok oneClient),
      (.connect 8, .ok twoClients), (.application 8 oversizedBytes 0, .error .outOfBounds)] ∧
    ¬ ∀ tr, Run MIPTPStep (.ok MIPTPServer.create) tr →
      Always UndisturbedStep (.ok MIPTPServer.create) tr := by
  have hconn : twoClients.appController.isAConnection 8 = true := rfl
  have hreceiver := run_twoClients 8 receiverBytes
  have hzero := run_twoClients 8 zeroPortBytes
  have hsize := run_twoClients 8 oversizedBytes
  rw [MIPTPServer.handleEvent_application_error hconn (by decide) 0 fun h => h.type rfl,
    if_pos (by decide)] at hreceiver
  rw [MIPTPServer.handleEvent_application_error hconn (by decide) 0
    fun h => absurd h.port (by decide), if_pos (by decide)] at hzero
  rw [MIPTPServer.handleEvent_application_error hconn (by decide) 0
    fun h => absurd (oversizedBytes.length_readBuffer ▸ h.size) (by decide),
    if_neg (by decide)] at hsize
  refine ⟨hreceiver, hzero, hsize, ?_⟩
  intro hall
  obtain ⟨_, _, ⟨s', hs', _⟩, _⟩ := hall _ hreceiver
  cases hs'

/-- what a well-behaved client writes -/
def Small (bytes : ReadBytes) : Prop :=
  Acceptable bytes ∧ (ClientPackage.serializedGetDataSize bytes.readBuffer).toNat ≤ 1490

def SmallStep : Except Fault MIPTPServer → MIPTPEvent → Prop
  | .ok s, .application socket bytes _ =>
    s.appController.isAConnection socket = true → bytes.1.length ≠ 0 → Small bytes
  | _, _ => True

/-- **Well-behaved clients are isolated**: all of them send acceptable packages of at most 1490
bytes. -/
theorem clients_isolated_of_small {tr : List (MIPTPEvent × Except Fault MIPTPServer)}
    (hr : Run MIPTPStep (.ok MIPTPServer.create) tr)
    (h : Meets SmallStep (.ok MIPTPServer.create) tr) :
    Always UndisturbedStep (.ok MIPTPServer.create) tr := by
  refine Run.always_imp (I := WellFormedState 1490) (P := fun r ev _ => SmallStep r ev)
    (fun r ev r' hI hsmall hstep => ?_) (fun r ev r' hI hsmall hstep => ?_) hr
    (wellFormedState_create 1490) ((always_cond_iff _ _ _).mpr h)
  · obtain ⟨s, rfl, _, rfl⟩ := hstep
    refine hI.step ?_
    cases ev with
    | application socket bytes now => exact fun hconn hlen => (hsmall hconn hlen).2
    | poll => trivial
    | connect newSocket => trivial
    | stdin bytes => trivial
    | mipd bytes memory => trivial
  · obtain ⟨s, rfl, _, rfl⟩ := hstep
    refine (MIPTPServer.undisturbed_iff (hI s rfl) ev).mpr ?_
    cases ev with
    | application socket bytes now => exact fun hconn hlen => (hsmall hconn hlen).1
    | poll => exact (hI s rfl).tolerable_poll
    | connect newSocket => trivial
    | stdin bytes => trivial
    | mipd bytes memory => trivial

end MipStack
