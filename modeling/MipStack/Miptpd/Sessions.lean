import MipStack.Miptpd.StoredServer
import MipStack.Miptpd.Window

/-!
# What miptpd is: one session for each client

A session knows what its client has asked for last, and which numbers have come in on its port
since.  Everything else in a connection follows from these.

* `Session`            socket, last request, and the numbers heard;
* `Session.Finished`   the last number of the data has been heard;
* `Session.offers`     the slices of the data from the highest number heard on;
* `Session.connection`   the connection that belongs to a session;
* `window_connection`, `dispatched_connection`   it sends what the session offers, and hears what the
                       session hears;
* `Sessions.after`, `Sessions.Survives`   what an event does to the sessions, and when the daemon
                       goes on after it;
* `sessions_refined`   **in every run the daemon goes on exactly as long as its sessions say; its
                       connections are those of the sessions, and it sends what they offer**.
-/

namespace MipStack
open Library

/-! ## a session -/

structure Session where
  socket : ℕ
  /-- with the time at which it came -/
  request : Option (ClientPackage × ℤ)
  /-- up to the one that finishes the transfer -/
  heard : List UInt16
  deriving DecidableEq

namespace Session

/-- 16383 until there is a request -/
def port (h : Session) : BitVec 14 :=
  match h.request with
  | none => 16383
  | some (package, _) => BitVec.ofNat 14 package.port.toNat

def destination (h : Session) : MIPAddress :=
  match h.request with
  | none => 0
  | some (package, _) => package.destination

/-- what the client wants to be sent, if it is a sender -/
def toSend (h : Session) : Option JobData :=
  match h.request with
  | none => none
  | some (package, _) => if package.type = .MIPTP_SENDER then some package.data else none

/-- the highest number heard -/
def next (h : Session) : ℕ := (h.heard.map UInt16.toNat).foldl max 0

/-- something has been heard, and the last package of the data has been reached -/
def Finished (h : Session) : Bool :=
  match h.toSend with
  | none => false
  | some data => h.heard ≠ [] ∧ 0 < data.1.length ∧ (data.1.length - 1) / 1492 ≤ h.next

/-- the slice number `s` of the data; its index is computed in 16 bits -/
def slice (port : BitVec 14) (data : JobData) (s : ℕ) : MIPTPPackage :=
  ⟨⟨BitVec.ofNat 2 (calcPl (min 1492 (data.1.length - s * 1492 % 65536))), port, UInt16.ofNat s⟩,
    (data.1.drop (s * 1492 % 65536)).take 1492⟩

/-- eleven numbers, or the first ones of them up to the end of the data; none where the end of the
window wraps around -/
def numbers (h : Session) (data : JobData) : List ℕ :=
  if h.next + 11 < 65536 then
    (List.range' h.next 11).takeWhile fun s => s * 1492 % 65536 ≤ data.1.length
  else []

/-- the packages that are sent whenever the daemon gets to it -/
def offers (h : Session) : List MIPTPPackage :=
  match h.toSend with
  | none => []
  | some data => if h.Finished then [] else (h.numbers data).map (slice h.port data)

/-- only a sender that is not finished listens -/
def hear (package : MIPTPPackage) (h : Session) : Session :=
  if h.port = package.miptpHeader.port ∧ h.toSend.isSome ∧ h.Finished = false then
    { h with heard := h.heard ++ [package.miptpHeader.PSN] }
  else h

/-! ## the connection of a session -/

/-- the job of a sender that has heard the numbers -/
def sendJob (port : BitVec 14) (package : ClientPackage) (now : ℤ) (heard : List UInt16) :
    MIPTPSendJob :=
  { MIPTPSendJob.create port package.destination package.data 0 now with
    slidingWindow := SlidingWindow.received 0 WINDOW_SIZE heard }

def connection (h : Session) : AppConnection :=
  match h.request with
  | none => ⟨16383, h.socket, 0, .CONN_NOT_READY, none, none⟩
  | some (package, now) =>
    if package.type = .MIPTP_SENDER then
      ⟨h.port, h.socket, package.destination, if h.Finished then .CONN_COMPLETE else .CONN_SENDER,
        some (sendJob h.port package now h.heard), none⟩
    else ⟨h.port, h.socket, package.destination, .CONN_NOT_READY, none, none⟩

@[simp] theorem socket_connection (h : Session) : h.connection.socket = h.socket := by
  obtain ⟨socket, request, heard⟩ := h
  rcases request with _ | ⟨package, now⟩
  · rfl
  · unfold connection
    dsimp only
    split <;> rfl

@[simp] theorem port_connection (h : Session) : h.connection.port = h.port := by
  obtain ⟨socket, request, heard⟩ := h
  rcases request with _ | ⟨package, now⟩
  · rfl
  · unfold connection
    dsimp only
    split <;> rfl

@[simp] theorem socket_hear (package : MIPTPPackage) (h : Session) :
    (h.hear package).socket = h.socket := by
  unfold hear
  split <;> rfl

/-- the base of the window is the highest number heard -/
theorem sequenceBase_eq (h : Session) :
    (SlidingWindow.received 0 WINDOW_SIZE h.heard).sequenceBase.toNat = h.next :=
  SlidingWindow.sequenceBase_received 0 WINDOW_SIZE h.heard

theorem sequenceMax_eq (h : Session) :
    (SlidingWindow.received 0 WINDOW_SIZE h.heard).sequenceMax.toNat = (h.next + 11) % 65536 := by
  have hroom : (0 : UInt16).toNat + WINDOW_SIZE.toNat + 1 ≤ 65535 := by decide
  have hsize : WINDOW_SIZE.toNat = 10 := rfl
  have hzero : (0 : UInt16).toNat = 0 := rfl
  rw [SlidingWindow.toNat_sequenceMax_received hroom, sequenceBase_eq, hsize, hzero]
  omega

theorem next_lt (h : Session) : h.next < 65536 := by
  rw [← sequenceBase_eq]
  exact UInt16.toNat_lt _

variable {h : Session} {data : JobData}

theorem finished_iff (hdata : h.toSend = some data) : h.Finished = true ↔
    h.heard ≠ [] ∧ 0 < data.1.length ∧ (data.1.length - 1) / 1492 ≤ h.next := by
  unfold Finished
  rw [hdata]
  exact decide_eq_true_iff

section
variable (port : BitVec 14) (package : ClientPackage) (now : ℤ)

/-- the packages of a job are slices of its data -/
theorem nextPackages_sendJob (h : Session) :
    (sendJob port package now h.heard).nextPackages
      = (h.numbers package.data).map (slice port package.data) := by
  have hbase : (sendJob port package now h.heard).slidingWindow.sequenceBase.toNat = h.next :=
    h.sequenceBase_eq
  have hmax : (sendJob port package now h.heard).slidingWindow.sequenceMax.toNat
      = (h.next + 11) % 65536 := h.sequenceMax_eq
  have hlt := h.next_lt
  unfold numbers
  split
  · rename_i hroom
    rw [Nat.mod_eq_of_lt hroom] at hmax
    exact MIPTPSendJob.nextPackages_eq hbase hmax
  · have hempty : (h.next + 11) % 65536 - h.next = 0 := by omega
    rw [MIPTPSendJob.nextPackages, hmax, hbase, hempty]
    rfl

theorem receivePackage_sendJob (heard : List UInt16) (p : MIPTPPackage) :
    (sendJob port package now heard).receivePackage p
      = sendJob port package now (heard ++ [p.miptpHeader.PSN]) := by
  have hwindow : (SlidingWindow.received 0 WINDOW_SIZE heard).update p.miptpHeader.PSN
      = SlidingWindow.received 0 WINDOW_SIZE (heard ++ [p.miptpHeader.PSN]) := by
    rw [SlidingWindow.received, SlidingWindow.received, List.foldl_append]
    rfl
  rw [sendJob, sendJob, ← hwindow]
  rfl

/-- a job that has heard something is complete when its session is finished -/
theorem isComplete_sendJob {h : Session} (hdata : h.toSend = some package.data)
    (hheard : h.heard ≠ []) : (sendJob port package now h.heard).isComplete = h.Finished := by
  rw [Bool.eq_iff_iff, finished_iff hdata, and_iff_right hheard, MIPTPSendJob.isComplete_iff,
    MIPTPSendJob.numPackages_eq]
  show 0 < (package.data.1.length + 1491) / 1492 ∧ (package.data.1.length + 1491) / 1492 - 1
    ≤ (SlidingWindow.received 0 WINDOW_SIZE h.heard).sequenceBase.toNat ↔ _
  rw [sequenceBase_eq]
  omega

end

/-! ## sending and listening -/

/-- **A connection sends what its session offers.** -/
theorem window_connection (h : Session) : h.connection.window = h.offers := by
  obtain ⟨socket, request, heard⟩ := h
  rcases request with _ | ⟨package, now⟩
  · rfl
  by_cases htype : package.type = .MIPTP_SENDER
  swap
  · simp only [connection, offers, toSend, if_neg htype]
    rfl
  simp only [connection, offers, toSend, if_pos htype]
  generalize Finished ⟨socket, some (package, now), heard⟩ = finished
  cases finished with
  | true => rfl
  | false => exact nextPackages_sendJob _ package now ⟨socket, some (package, now), heard⟩

/-- **A connection hears what its session hears.** -/
theorem dispatched_connection (p : MIPTPPackage) (h : Session) :
    h.connection.dispatched p = (h.hear p).connection := by
  unfold AppConnection.dispatched hear
  rw [port_connection]
  by_cases hport : h.port = p.miptpHeader.port
  swap
  · rw [if_neg hport, if_neg fun hall => hport hall.1]
  rw [if_pos hport]
  obtain ⟨socket, request, heard⟩ := h
  rcases request with _ | ⟨package, now⟩
  · rw [if_neg fun hall => nomatch hall.2.1]
    rfl
  by_cases htype : package.type = .MIPTP_SENDER
  swap
  · have hnone : toSend ⟨socket, some (package, now), heard⟩ = none := if_neg htype
    rw [hnone, if_neg fun hall => nomatch hall.2.1]
    simp only [connection, if_neg htype]
    rfl
  have hdata : ∀ numbers : List UInt16,
      toSend ⟨socket, some (package, now), numbers⟩ = some package.data := fun _ => if_pos htype
  by_cases hfinished : Finished ⟨socket, some (package, now), heard⟩ = true
  · rw [if_neg fun hall => by rw [hfinished] at hall; exact nomatch hall.2.2]
    simp only [connection, if_pos htype, hfinished, if_true]
    rfl
  · rw [if_pos ⟨hport, by rw [hdata]; rfl, Bool.eq_false_iff.mpr hfinished⟩]
    -- the job takes the number in, and is complete if that finishes the session
    have hcomplete := isComplete_sendJob (BitVec.ofNat 14 package.port.toNat) package now
      (hdata (heard ++ [p.miptpHeader.PSN])) (List.append_ne_nil_of_right_ne_nil _ (by simp))
    simp only [connection, if_pos htype, if_neg hfinished, AppConnection.received]
    rw [receivePackage_sendJob, ← hcomplete]
    rfl

theorem wellFormed_connection (h : Session) : h.connection.WellFormed 65535 := by
  obtain ⟨socket, request, heard⟩ := h
  rcases request with _ | ⟨package, now⟩
  · exact ⟨nofun, nofun, nofun⟩
  by_cases htype : package.type = .MIPTP_SENDER
  · simp only [connection, if_pos htype]
    refine ⟨fun _ => rfl, ?_, fun job hjob => ?_⟩
    · show (if _ then _ else _) ≠ _
      split <;> nofun
    · rw [← Option.some.inj hjob]
      exact package.data.2
  · simp only [connection, if_neg htype]
    exact ⟨nofun, nofun, nofun⟩

/-- a client that has just made its request -/
theorem connection_requested {socket : ℕ} {package : ClientPackage} {now : ℤ} {c : AppConnection}
    (h : AppConnection.create (connectionType package.type) socket package.port package.destination
      package.data 0 now = some c) : connection ⟨socket, some (package, now), []⟩ = c := by
  obtain ⟨port, destination, type, data⟩ := package
  cases type with
  | MIPTP_SENDER =>
    obtain rfl := Option.some.inj h
    rfl
  | MIPTP_RECEIVER => cases h
  | other value =>
    obtain rfl := Option.some.inj h
    rfl

end Session

/-! ## all sessions -/

/-- what miptpd takes for a package when it reads the bytes -/
def ReadBytes.package (bytes : ReadBytes) (memory : ℕ → List UInt8) : Except Fault MIPTPPackage :=
  MIPTPPackage.deserialize (memory (ofLe ((bytes.readBuffer.drop 8).take 8)))
    (UInt16.ofNat (ofLe ((bytes.readBuffer.drop 2).take 2)))

namespace Sessions

/-- what an event does to the sessions -/
def after (sessions : List Session) : MIPTPEvent → List Session
  | .poll => sessions
  | .mipd bytes memory =>
    if bytes.1.length = 0 then sessions
    else
      match bytes.package memory with
      | .error _ => sessions
      | .ok package => sessions.map (Session.hear package)
  | .connect newSocket => sessions ++ [⟨newSocket, none, []⟩]
  | .application socket bytes now =>
    match lookup Session.socket socket sessions with
    | none => sessions
    | some _ =>
      if bytes.1.length = 0 then erase Session.socket socket sessions
      else
        match ClientPackage.deserialize bytes.readBuffer with
        | .error _ => sessions
        | .ok package => put Session.socket ⟨socket, some (package, now), []⟩ sessions
  | .stdin _ => sessions

/-- the daemon goes on after the event -/
def Survives (sessions : List Session) : MIPTPEvent → Prop
  | .poll => ∀ h ∈ sessions, ∀ p ∈ h.offers, p.data.length ≤ 1490
  | .mipd bytes memory => bytes.1.length ≠ 0 → ∃ package, bytes.package memory = .ok package
  | .connect _ => True
  | .application socket bytes _ =>
    (lookup Session.socket socket sessions).isSome → bytes.1.length ≠ 0 →
      MIPTPAppController.Registers bytes.readBuffer
  | .stdin _ => True

/-- what the sessions offer when the daemon sends: socket of the client, destination and package -/
def offers (sessions : List Session) : MIPTPEvent → List (ℕ × MIPAddress × MIPTPPackage)
  | .poll => sessions.flatMap fun h => h.offers.map fun p => (h.socket, h.destination, p)
  | _ => []

/-- the events of a run, from the first to the last -/
def run (sessions : List Session) (events : List MIPTPEvent) : List Session :=
  events.foldl after sessions

def SurvivesAll : List Session → List MIPTPEvent → Prop
  | _, [] => True
  | sessions, ev :: events => Survives sessions ev ∧ SurvivesAll (after sessions ev) events

def offered : List Session → List MIPTPEvent → List (ℕ × MIPAddress × MIPTPPackage)
  | _, [] => []
  | sessions, ev :: events => offers sessions ev ++ offered (after sessions ev) events

end Sessions

/-- the message is what is sent for an offer -/
def Sends (offer : ℕ × MIPAddress × MIPTPPackage) (message : MIPDMessage) : Prop :=
  MIPTPAppController.packageMessage offer.2.1 offer.2.2 = .ok message

/-- the connections of the server are those of the sessions -/
structure ServesSessions (sessions : List Session) (s : MIPTPServer) : Prop where
  connections : s.connections = sessions.map Session.connection
  timeout : s.appController.timeout = 0

namespace MIPTPAppController

/-- one message for each package -/
theorem sends_of_packageMessages (socket : ℕ) {destination : MIPAddress}
    {packages : List MIPTPPackage} {messages : List MIPDMessage}
    (h : packageMessages destination packages = .ok messages) :
    List.Forall₂ Sends (packages.map fun p => (socket, destination, p)) messages := by
  induction packages generalizing messages with
  | nil =>
    obtain rfl := Except.ok.inj h
    exact List.Forall₂.nil
  | cons p packages ih =>
    rw [packageMessages] at h
    split at h
    · cases h
    · rename_i message hmessage
      obtain ⟨rest, hrest, rfl⟩ := map_eq_ok_iff.mp h
      exact List.Forall₂.cons hmessage (ih hrest)

/-- only senders have a destination to send to -/
theorem destination_connection {h : Session} (hoffers : h.offers ≠ []) :
    h.connection.connectedMip = h.destination := by
  obtain ⟨socket, request, heard⟩ := h
  rcases request with _ | ⟨package, now⟩
  · exact absurd rfl hoffers
  · unfold Session.connection
    dsimp only
    split <;> rfl

theorem sends_of_outgoing {sessions : List Session} {x : List AppConnection × List MIPDMessage}
    (h : outgoing (sessions.map Session.connection) = .ok x) :
    List.Forall₂ Sends (Sessions.offers sessions .poll) x.2 := by
  induction sessions generalizing x with
  | nil =>
    obtain rfl := Except.ok.inj h
    exact List.Forall₂.nil
  | cons g sessions ih =>
    rw [List.map_cons, outgoing_cons g.wellFormed_connection, g.window_connection] at h
    split at h
    · cases h
    · rename_i sent hsent
      obtain ⟨y, hy, rfl⟩ := map_eq_ok_iff.mp h
      show List.Forall₂ Sends (List.flatMap _ (g :: sessions)) (sent ++ y.2)
      rw [List.flatMap_cons]
      refine List.rel_append ?_ (ih hy)
      by_cases hoffers : g.offers = []
      · rw [hoffers] at hsent ⊢
        obtain rfl := Except.ok.inj hsent
        exact List.Forall₂.nil
      · rw [destination_connection hoffers] at hsent
        exact sends_of_packageMessages g.socket hsent

end MIPTPAppController

namespace ServesSessions
variable {sessions : List Session} {s : MIPTPServer}

theorem created : ServesSessions [] MIPTPServer.create := ⟨rfl, rfl⟩

theorem wellFormed (hs : ServesSessions sessions s) : s.WellFormed 65535 := by
  intro c hc
  have hmem : c ∈ sessions.map Session.connection := hs.connections ▸ hc
  obtain ⟨h, _, rfl⟩ := List.mem_map.mp hmem
  exact h.wellFormed_connection

theorem lookup_eq (hs : ServesSessions sessions s) (socket : ℕ) :
    lookup AppConnection.socket socket s.appController.connections
      = (lookup Session.socket socket sessions).map Session.connection := by
  rw [← lookup_map Session.socket_connection, ← hs.connections]
  rfl

theorem isAConnection_eq (hs : ServesSessions sessions s) (socket : ℕ) :
    s.appController.isAConnection socket = (lookup Session.socket socket sessions).isSome := by
  rw [MIPTPAppController.isAConnection, hs.lookup_eq, Option.isSome_map]

end ServesSessions

/-! ## one event -/

/-- **What the sessions say of an event**: whether the server goes on, what its connections are then,
and what it sends. -/
structure Handles (sessions : List Session) (ev : MIPTPEvent)
    (r : Except Fault (MIPTPServer × List MIPDMessage)) : Prop where
  survives : (∃ x, r = .ok x) ↔ Sessions.Survives sessions ev
  serves : ∀ x, r = .ok x → ServesSessions (Sessions.after sessions ev) x.1
  sends : ∀ x, r = .ok x → List.Forall₂ Sends (Sessions.offers sessions ev) x.2

namespace Handles
variable {sessions : List Session} {s s' : MIPTPServer} {ev : MIPTPEvent}

theorem goesOn (hev : Sessions.Survives sessions ev)
    (hs : ServesSessions (Sessions.after sessions ev) s') (hsilent : Sessions.offers sessions ev = []) :
    Handles sessions ev (.ok (s', [])) := by
  refine ⟨iff_of_true ⟨_, rfl⟩ hev, fun x hx => ?_, fun x hx => ?_⟩
  · rw [← Except.ok.inj hx]
    exact hs
  · rw [← Except.ok.inj hx, hsilent]
    exact List.Forall₂.nil

theorem stops (hev : ¬ Sessions.Survives sessions ev) (f : Fault) :
    Handles sessions ev (.error f) :=
  ⟨iff_of_false (fun hex => nomatch hex.choose_spec) hev, nofun, nofun⟩

theorem poll (hs : ServesSessions sessions s) : Handles sessions .poll (s.handleEvent .poll) := by
  have hwell := hs.wellFormed
  have hconn : s.appController.connections = sessions.map Session.connection := hs.connections
  refine ⟨exists_map_ok_iff.trans ?_, fun x hx => ?_, fun x hx => ?_⟩
  · rw [MIPTPAppController.WellFormed.handleOutgoing_iff hwell, hconn, List.forall_mem_map]
    simp only [Session.window_connection]
    exact Iff.rfl
  · obtain ⟨y, hy, rfl⟩ := map_eq_ok_iff.mp hx
    have hy' := MIPTPAppController.WellFormed.handleOutgoing hwell hy
    refine ⟨?_, ?_⟩
    · show y.1.connections = _
      rw [hy']
      exact hs.connections
    · show y.1.timeout = 0
      rw [hy']
      exact hs.timeout
  · obtain ⟨y, hy, rfl⟩ := map_eq_ok_iff.mp hx
    obtain ⟨z, hz, rfl⟩ := map_eq_ok_iff.mp hy
    rw [hconn] at hz
    exact MIPTPAppController.sends_of_outgoing hz

theorem mipd (hs : ServesSessions sessions s) (bytes : ReadBytes) (memory : ℕ → List UInt8) :
    Handles sessions (.mipd bytes memory) (s.handleEvent (.mipd bytes memory)) := by
  by_cases hlen : bytes.1.length = 0
  · rw [MIPTPServer.handleEvent, if_pos hlen]
    refine goesOn (fun hne => absurd hlen hne) ?_ rfl
    rw [Sessions.after, if_pos hlen]
    exact ⟨hs.connections, hs.timeout⟩
  rw [MIPTPServer.handleEvent, if_neg hlen, s.handleMipdData_eq,
    MIPTPAppController.WellFormed.handleMipdPackage_eq hs.wellFormed]
  cases hpackage : bytes.package memory with
  | error f =>
    rw [ReadBytes.package] at hpackage
    rw [hpackage]
    refine stops (fun hev => ?_) f
    obtain ⟨package, hok⟩ := hev hlen
    rw [ReadBytes.package, hpackage] at hok
    cases hok
  | ok package =>
    have hread := hpackage
    rw [ReadBytes.package] at hread
    rw [hread]
    refine goesOn (fun _ => ⟨package, hpackage⟩) ?_ rfl
    rw [Sessions.after, if_neg hlen, hpackage]
    refine ⟨?_, hs.timeout⟩
    show List.map (AppConnection.dispatched package) s.connections = _
    rw [hs.connections, List.map_map, List.map_map]
    exact List.map_congr_left fun h _ => h.dispatched_connection package

theorem connect (hs : ServesSessions sessions s) (newSocket : ℕ) :
    Handles sessions (.connect newSocket) (s.handleEvent (.connect newSocket)) := by
  refine goesOn trivial ⟨?_, hs.timeout⟩ rfl
  show s.connections ++ [_] = (sessions ++ [_]).map Session.connection
  rw [hs.connections, List.map_append]
  rfl

theorem stdin (hs : ServesSessions sessions s) (bytes : ReadBytes) :
    Handles sessions (.stdin bytes) (s.handleEvent (.stdin bytes)) := by
  simp only [MIPTPServer.handleEvent]
  split
  · exact goesOn trivial ⟨hs.connections, hs.timeout⟩ rfl
  · exact goesOn trivial hs rfl

/-- the connection that is asked for is that of a session in which nothing has been heard -/
theorem application (hs : ServesSessions sessions s) (socket : ℕ) (bytes : ReadBytes) (now : ℤ) :
    Handles sessions (.application socket bytes now)
      (s.handleEvent (.application socket bytes now)) := by
  cases hsession : lookup Session.socket socket sessions with
  | none =>
    have hconn : ¬ s.appController.isAConnection socket = true := by
      rw [hs.isAConnection_eq, hsession]
      exact Bool.false_ne_true
    rw [MIPTPServer.handleEvent, if_neg hconn]
    refine goesOn (fun hsome => ?_) ?_ rfl
    · rw [hsession] at hsome
      cases hsome
    · rw [Sessions.after, hsession]
      exact hs
  | some h =>
    have hconn : s.appController.isAConnection socket = true := by
      rw [hs.isAConnection_eq, hsession]
      rfl
    by_cases hlen : bytes.1.length = 0
    · rw [MIPTPServer.handleEvent, if_pos hconn, if_pos hlen]
      refine goesOn (fun _ hne => absurd hlen hne) ⟨?_, hs.timeout⟩ rfl
      rw [Sessions.after, hsession]
      dsimp only
      rw [if_pos hlen, ← erase_map Session.socket_connection, ← hs.connections]
      rfl
    by_cases hreg : MIPTPAppController.Registers bytes.readBuffer
    swap
    · rw [MIPTPServer.handleEvent_application_error hconn hlen now hreg]
      have hstops : ¬ Sessions.Survives sessions (.application socket bytes now) := by
        intro hev
        exact hreg (hev (by rw [hsession]; rfl) hlen)
      split
      · exact stops hstops _
      · exact stops hstops _
    obtain ⟨package, hp, hchecks, htype⟩ : ∃ package,
        ClientPackage.deserialize bytes.readBuffer = .ok package ∧
        (package.port > 0 ∧ package.destination > 0) ∧ package.type ≠ .MIPTP_RECEIVER :=
      ⟨_, if_pos hreg.size, ⟨hreg.port, hreg.destination⟩, hreg.type⟩
    have hfound : lookup AppConnection.socket socket s.appController.connections
        = some h.connection := by
      rw [hs.lookup_eq, hsession]
      rfl
    obtain ⟨complete, hcomplete⟩ := Option.ne_none_iff_exists'.mp
      (mt (s.appController.requested_eq_none_iff socket package now).mp htype)
    rw [MIPTPServer.handleEvent_application hconn hlen,
      MIPTPAppController.handleAppPackage_replaced hp hchecks hfound hcomplete]
    rw [MIPTPAppController.requested, hs.timeout] at hcomplete
    refine goesOn (fun _ _ => hreg) ⟨?_, hs.timeout⟩ rfl
    rw [Sessions.after, hsession]
    dsimp only
    rw [if_neg hlen, hp, ← Session.connection_requested hcomplete]
    show put AppConnection.socket _ s.connections = _
    rw [hs.connections, put_map Session.socket_connection]

end Handles

/-- **Every event is handled as the sessions say.** -/
theorem ServesSessions.handles {sessions : List Session} {s : MIPTPServer}
    (hs : ServesSessions sessions s) (ev : MIPTPEvent) : Handles sessions ev (s.handleEvent ev) := by
  cases ev with
  | poll => exact Handles.poll hs
  | mipd bytes memory => exact Handles.mipd hs bytes memory
  | connect newSocket => exact Handles.connect hs newSocket
  | application socket bytes now => exact Handles.application hs socket bytes now
  | stdin bytes => exact Handles.stdin hs bytes

/-! ## whole runs -/

/-- the same for a run, from the first event to the last -/
structure HandlesAll (sessions : List Session) (events : List MIPTPEvent)
    (r : Except Fault MIPTPServer × List MIPDMessage) : Prop where
  survives : (∃ s, r.1 = .ok s) ↔ Sessions.SurvivesAll sessions events
  serves : ∀ s, r.1 = .ok s → ServesSessions (Sessions.run sessions events) s
  sends : ∀ s, r.1 = .ok s → List.Forall₂ Sends (Sessions.offered sessions events) r.2

theorem ServesSessions.serve {sessions : List Session} {s : MIPTPServer}
    (hs : ServesSessions sessions s) (events : List MIPTPEvent) :
    HandlesAll sessions events (s.serve events) := by
  induction events generalizing sessions s with
  | nil =>
    refine ⟨iff_of_true ⟨s, rfl⟩ trivial, fun s' hs' => ?_, fun _ _ => List.Forall₂.nil⟩
    obtain rfl := Except.ok.inj hs'
    exact hs
  | cons ev events ih =>
    have hev := hs.handles ev
    rw [MIPTPServer.serve]
    cases hr : s.handleEvent ev with
    | error f =>
      rw [hr] at hev
      have hnone : ∀ {α : Type} {x : α}, (Except.error f : Except Fault α) ≠ .ok x :=
        fun h => by cases h
      have hnot : ¬ Sessions.Survives sessions ev := fun h => hnone (hev.survives.mpr h).choose_spec
      exact ⟨iff_of_false (fun hex => hnone hex.choose_spec) fun h => hnot h.1,
        fun s' hs' => absurd hs' hnone, fun s' hs' => absurd hs' hnone⟩
    | ok x =>
      rw [hr] at hev
      have hrest := ih (hev.serves x rfl)
      refine ⟨hrest.survives.trans (and_iff_right (hev.survives.mp ⟨x, rfl⟩)).symm, hrest.serves, ?_⟩
      intro s' hs'
      exact List.rel_append (hev.sends x rfl) (hrest.sends s' hs')

/-- **miptpd is one session for each client.**  It goes on exactly as long as its sessions say, and
then its connections are those of the sessions, and it has sent one message for each of their offers,
in their order. -/
theorem sessions_refined (events : List MIPTPEvent) :
    ((∃ s, (MIPTPServer.create.serve events).1 = .ok s) ↔ Sessions.SurvivesAll [] events) ∧
    ∀ s, (MIPTPServer.create.serve events).1 = .ok s →
      s.connections = (Sessions.run [] events).map Session.connection ∧
      List.Forall₂ Sends (Sessions.offered [] events) (MIPTPServer.create.serve events).2 := by
  have h := ServesSessions.created.serve events
  exact ⟨h.survives, fun s hs => ⟨(h.serves s hs).connections, h.sends s hs⟩⟩

/-- two clients connect, and the first one sends two bytes -/
def twoClientEvents : List MIPTPEvent :=
  [.connect 7, .connect 8, .application 7 senderBytes 0, .poll]

/-- the first client has moved behind the second -/
def senderLast : MIPTPServer := ⟨true, ⟨[notReady 8, twoBytesSender], 10, 0⟩⟩

theorem handleEvent_twoClients :
    (twoClients.handleEvent (.application 7 senderBytes 0)).map Prod.fst = .ok senderLast := by
  have hpackage : ClientPackage.deserialize senderBytes.readBuffer = .ok _ :=
    if_pos acceptable_senderBytes.registers.size
  have hlen : senderBytes.1.length ≠ 0 := by decide
  rw [MIPTPServer.handleEvent_application_eq rfl hlen,
    MIPTPAppController.handleAppPackage_replaced hpackage
      ⟨acceptable_senderBytes.port, acceptable_senderBytes.destination⟩ rfl rfl]
  rfl

theorem serve_twoClientEvents :
    (MIPTPServer.create.serve twoClientEvents).1 = .ok senderLast := by
  have hfirst : (MIPTPServer.create.handleEvent (.connect 7)).map Prod.fst = .ok oneClient := rfl
  have hsecond : (oneClient.handleEvent (.connect 8)).map Prod.fst = .ok twoClients := rfl
  have hpoll : (senderLast.handleEvent .poll).map Prod.fst = .ok senderLast := rfl
  show (MIPTPServer.create.serve (_ :: _ :: _ :: _ :: [])).1 = _
  rw [serve_cons_fst hfirst, serve_cons_fst hsecond, serve_cons_fst handleEvent_twoClients,
    serve_cons_fst hpoll]
  rfl

theorem sessions_refined_two : Sessions.SurvivesAll [] twoClientEvents ∧
    senderLast.connections = (Sessions.run [] twoClientEvents).map Session.connection ∧
    List.Forall₂ Sends (Sessions.offered [] twoClientEvents)
      (MIPTPServer.create.serve twoClientEvents).2 :=
  ⟨(sessions_refined twoClientEvents).1.mp ⟨_, serve_twoClientEvents⟩,
    (sessions_refined twoClientEvents).2 _ serve_twoClientEvents⟩

end MipStack
