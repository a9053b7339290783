import MipStack.Mipd.Server
import MipStack.Library.Lookups

/-!
# Forward queue, request stream and response stream in lock step

mipd together with the two byte streams of its forward connection and a routerd that answers in
order.  A request byte stands for the package on whose behalf it was written, a response byte for
the request it answers; both are recorded here and are not on the wire.

* `ForwardLink`       the server, the two streams, and what has become of the responses;
* `LinkStep`          routerd answers or closes the connection; mipd handles an event;
* `InStep`            every response consumed so far popped the package of its own request, and the
                      queue holds the packages of the unanswered requests, in order;
* `NoneOutstanding`   the condition: the forward connection ends only when no request is unanswered;
* `in_step_iff`       **a run stays in lock step if and only if all its steps meet the condition**;
* `stale_package`     a run in which a response pops the package of an older request.
-/

namespace MipStack
open Library

/-! ## the model -/

/-- `requests` and `responses` are those of the current forward connection; `consumed` pairs the
package of each consumed response with the package that was popped -/
structure ForwardLink where
  server : MIPDServer
  requests : List MIPPackage
  responses : List (MIPPackage × MIPAddress)
  peerClosed : Bool
  consumed : List (MIPPackage × MIPPackage)

inductive LinkAction
  | answer (nextHop : MIPAddress)
  | close
  | event (env : Env) (ev : Event)

def Event.IsForward : Event → Prop
  | .forwardConnect _ => True
  | .forwardData _ => True
  | _ => False

/-- **One step.**  Events that end the daemon are not steps. -/
inductive LinkStep : ForwardLink → LinkAction → ForwardLink → Prop
  | answer {s : ForwardLink} {p : MIPPackage} {rest : List MIPPackage} {nextHop : MIPAddress}
      (hopen : s.peerClosed = false) (h : s.requests = p :: rest) :
      LinkStep s (.answer nextHop)
        { s with requests := rest, responses := s.responses ++ [(p, nextHop)] }
  | close {s : ForwardLink} (hc : s.server.forwardSocket ≠ -1) :
      LinkStep s .close { s with peerClosed := true }
  /-- routerd connects, again or for the first time; what was under way on the old connection is
  not read any more -/
  | connect {s : ForwardLink} {env : Env} {fd : ℕ} {server : MIPDServer} {effects : List Effect}
      (h : s.server.handleEvent env (.forwardConnect fd) = .ok (server, effects)) :
      LinkStep s (.event env (.forwardConnect fd)) ⟨server, [], [], false, s.consumed⟩
  /-- mipd reads the end of the stream, behind the last response -/
  | disconnect {s : ForwardLink} {env : Env} {server : MIPDServer} {effects : List Effect}
      (hc : s.server.forwardSocket ≠ -1) (hclosed : s.peerClosed = true) (hr : s.responses = [])
      (h : s.server.handleEvent env (.forwardData none) = .ok (server, effects)) :
      LinkStep s (.event env (.forwardData none)) ⟨server, [], [], false, s.consumed⟩
  | consume {s : ForwardLink} {env : Env} {p popped : MIPPackage} {nextHop : MIPAddress}
      {rest : List (MIPPackage × MIPAddress)} {server left : MIPDServer} {effects : List Effect}
      (hc : s.server.forwardSocket ≠ -1) (hr : s.responses = (p, nextHop) :: rest)
      (hp : s.server.pop = some (popped, left))
      (h : s.server.handleEvent env (.forwardData (some nextHop)) = .ok (server, effects)) :
      LinkStep s (.event env (.forwardData (some nextHop)))
        { s with server := server, responses := rest, consumed := s.consumed ++ [(p, popped)] }
  /-- any other event; a write to a closed connection fails -/
  | other {s : ForwardLink} {env : Env} {ev : Event} {server : MIPDServer} {effects : List Effect}
      (hev : ¬ ev.IsForward)
      (hw : s.peerClosed = true → env.writeOk s.server.forwardSocket = false)
      (h : s.server.handleEvent env ev = .ok (server, effects)) :
      LinkStep s (.event env ev)
        { s with server := server, requests := s.requests ++ requestsOf effects }

def ForwardLink.start (table : InterfaceTable) (now : ℤ) : ForwardLink :=
  ⟨MIPDServer.start table now, [], [], false, []⟩

def InStep (s : ForwardLink) : Prop :=
  (∀ x ∈ s.consumed, x.1 = x.2) ∧ Aligned s.server.waiting s.requests s.responses

/-- the forward connection ends only when no request is unanswered -/
def NoneOutstanding (s : ForwardLink) : LinkAction → Prop
  | .event _ (.forwardConnect _) => s.requests = [] ∧ s.responses = []
  | .event _ (.forwardData none) => s.requests = [] ∧ s.responses = []
  | _ => True

/-! ## runs -/

/-- a connection that ends leaves the queue as it is, and the streams empty -/
theorem inStep_fresh_iff {s : ForwardLink} {server : MIPDServer} (hs : InStep s)
    (hq : server.forwardQueue = s.server.forwardQueue) :
    InStep ⟨server, [], [], false, s.consumed⟩ ↔ s.requests = [] ∧ s.responses = [] := by
  have hwaiting : server.waiting = s.server.waiting := by
    rw [MIPDServer.waiting, hq]
    rfl
  rw [← hs.2.queue_eq_nil_iff, ← hwaiting]
  exact ⟨fun h => aligned_fresh_iff.mp h.2, fun h => ⟨hs.1, aligned_fresh_iff.mpr h⟩⟩

/-- **One step from lock step stays there if and only if it meets the condition.** -/
theorem LinkStep.inStep_iff {s s' : ForwardLink} {a : LinkAction} (h : LinkStep s a s')
    (hs : InStep s) : InStep s' ↔ NoneOutstanding s a := by
  cases h with
  | @answer p rest nextHop hopen h =>
    refine iff_of_true ⟨hs.1, ?_⟩ trivial
    have halign := hs.2
    rw [h] at halign
    exact halign.serve nextHop
  | close hc => exact iff_of_true hs trivial
  | connect h =>
    obtain ⟨rfl, _⟩ := Prod.mk.inj (Except.ok.inj h)
    exact inStep_fresh_iff hs rfl
  | disconnect hc hclosed hr h =>
    simp only [MIPDServer.handleEvent, hc, ↓reduceIte] at h
    obtain ⟨rfl, _⟩ := Prod.mk.inj (Except.ok.inj h)
    exact inStep_fresh_iff hs rfl
  | @consume env p popped nextHop rest server left effects hc hr hp h =>
    have halign := hs.2
    rw [(MIPDServer.handled h).waiting_of_response hc hp, hr] at halign
    obtain ⟨rfl, hrest⟩ := halign.consume
    refine iff_of_true ⟨fun x hx => ?_, hrest⟩ trivial
    rcases List.mem_append.mp hx with hold | hnew
    · exact hs.1 x hold
    · rw [List.mem_singleton.mp hnew]
  | @other env ev server effects hev hw h =>
    have halign := hs.2.submit (requestsOf effects)
    rw [← (MIPDServer.handled h).waiting fun nextHop heq => hev (heq ▸ trivial)] at halign
    refine iff_of_true ⟨hs.1, halign⟩ ?_
    cases ev <;> first | trivial | exact absurd trivial hev

/-- **Lock step holds throughout a run if and only if the forward connection never ends while a
request is unanswered.** -/
theorem in_step_iff (table : InterfaceTable) (now : ℤ) {tr : List (LinkAction × ForwardLink)}
    (hr : Run LinkStep (ForwardLink.start table now) tr) :
    (∀ x ∈ tr, InStep x.2) ↔ Meets NoneOutstanding (ForwardLink.start table now) tr :=
  Run.meets_iff (I := fun _ => True) (fun _ _ _ _ _ _ _ => trivial)
    (fun _ _ _ _ hs h => h.inStep_iff hs) hr trivial
    ⟨fun _ hx => absurd hx List.not_mem_nil, rfl⟩

/-! ## runs of one daemon with one interface -/

/-- a transport package from node 20 for `dst` with `ttl` hops left -/
def transportPackage (ttl : BitVec 4) (dst : MIPAddress) : MIPPackage :=
  ⟨⟨fun _ => 0, fun _ => 0, (0x88, 0xB5)⟩, ⟨3, ttl, 0, dst, 20⟩, []⟩

/-- the bytes that arrive with five hops left -/
def arrivingFrame (dst : MIPAddress) : List UInt8 := frameOf (transportPackage 5 dst)

/-- the package that is queued of them -/
def queuedFrame (dst : MIPAddress) : MIPPackage := (transportPackage 4 dst).wire.received

theorem decrementTtl_received (dst : MIPAddress) :
    MIPDServer.decrementTtl (transportPackage 5 dst).wire.received = queuedFrame dst := by
  have hcomm : ∀ p : MIPPackage, MIPDServer.decrementTtl p.wire.received
      = (MIPDServer.decrementTtl p).wire.received := fun _ => rfl
  have httl : MIPDServer.decrementTtl (transportPackage 5 dst) = transportPackage (5 - 1) dst := rfl
  have hfour : (5 : BitVec 4) - 1 = 4 := rfl
  rw [hcomm, httl, hfour, queuedFrame]

/-- the daemon with forward socket `fd` and packages for the addresses `queue`, newest first -/
def forwardingServer (fd : ℤ) (queue : List MIPAddress) : MIPDServer :=
  ⟨-1, -1, fd, oneInterface, ⟨[], 10000, 0⟩,
    queue.map fun d => ⟨d, queuedFrame d, 0⟩⟩

def connectedLink : ForwardLink := ⟨forwardingServer 7 [], [], [], false, []⟩

def waitingLink : ForwardLink := ⟨forwardingServer 7 [77], [queuedFrame 77], [], false, []⟩

/-- the frame is received, and a request for it is written -/
theorem handleEvent_arrivingFrame {fd : ℕ} {queue : List MIPAddress} {dst : MIPAddress}
    (h : dst ≠ 10) :
    (forwardingServer fd queue).handleEvent quietEnv (.rawFrame 3 (arrivingFrame dst))
      = .ok (forwardingServer fd (dst :: queue), [.writeForward fd dst (queuedFrame dst)]) := by
  have hreceive : receivePackage quietEnv.behind (arrivingFrame dst)
      = .ok (transportPackage 5 dst).wire.received := receivePackage_frameOf _ rfl
  have hown : getInterfacePosForMipAddress (forwardingServer fd queue).iTable
      (transportPackage 5 dst).wire.received.mHeader.dstAddr = none := by
    show getInterfacePosForMipAddress oneInterface dst = none
    simp [getInterfacePosForMipAddress, oneInterface, h.symm]
  have httl : (transportPackage 5 dst).wire.received.mHeader.ttl ≠ 0 := by
    show (5 : BitVec 4) ≠ 0
    decide
  have hwrites : (forwardingServer fd queue).writes quietEnv = true := by
    simp [MIPDServer.writes, forwardingServer, quietEnv]
  rw [MIPDServer.handleEvent_of_receive rfl hreceive]
  show MIPDServer.handleTransport quietEnv (forwardingServer fd queue)
    (transportPackage 5 dst).wire.received = _
  rw [MIPDServer.handleTransport, hown, if_neg nofun, if_neg httl,
    MIPDServer.requestForwarding, if_pos hwrites, decrementTtl_received]
  rfl

theorem connect_step : LinkStep (ForwardLink.start oneInterface 0)
    (.event quietEnv (.forwardConnect 7)) connectedLink := LinkStep.connect rfl

theorem waiting_step : LinkStep connectedLink (.event quietEnv (.rawFrame 3 (arrivingFrame 77)))
    waitingLink := by
  have hev : connectedLink.server.handleEvent quietEnv (.rawFrame 3 (arrivingFrame 77))
      = .ok (forwardingServer 7 [77], [.writeForward 7 77 (queuedFrame 77)]) :=
    handleEvent_arrivingFrame (by decide)
  exact LinkStep.other id (by decide) hev

theorem in_step_waiting : InStep waitingLink :=
  (in_step_iff _ 0 (Run.cons connect_step (Run.cons waiting_step (Run.nil _)))).mpr
    ⟨⟨rfl, rfl⟩, trivial, trivial⟩
    (.event quietEnv (.rawFrame 3 (arrivingFrame 77)), waitingLink) (by simp)

/-- **A stale package shifts the answers.**  routerd closes while the request for address 77 is
unanswered and connects again; the answer to the request for 88 then pops the package for 77. -/
theorem stale_package : ∃ tr,
    Run LinkStep (ForwardLink.start oneInterface 0) tr ∧
    ∃ x ∈ tr, ∃ y ∈ x.2.consumed, y.1 = queuedFrame 88 ∧ y.2 = queuedFrame 77 := by
  have hclose : LinkStep waitingLink .close { waitingLink with peerClosed := true } :=
    LinkStep.close (by decide)
  have hend : LinkStep { waitingLink with peerClosed := true } (.event quietEnv (.forwardData none))
      ⟨forwardingServer (-1) [77], [], [], false, []⟩ :=
    LinkStep.disconnect (by decide) rfl rfl rfl
  have hagain : LinkStep ⟨forwardingServer (-1) [77], [], [], false, []⟩
      (.event quietEnv (.forwardConnect 8)) ⟨forwardingServer 8 [77], [], [], false, []⟩ :=
    LinkStep.connect rfl
  have hnew : LinkStep ⟨forwardingServer 8 [77], [], [], false, []⟩
      (.event quietEnv (.rawFrame 3 (arrivingFrame 88)))
      ⟨forwardingServer 8 [88, 77], [queuedFrame 88], [], false, []⟩ := by
    have hev : (forwardingServer 8 [77]).handleEvent quietEnv (.rawFrame 3 (arrivingFrame 88))
        = .ok (forwardingServer 8 [88, 77], [.writeForward 8 88 (queuedFrame 88)]) :=
      handleEvent_arrivingFrame (by decide)
    exact LinkStep.other (s := ⟨forwardingServer 8 [77], [], [], false, []⟩) id (by decide) hev
  have hanswer : LinkStep ⟨forwardingServer 8 [88, 77], [queuedFrame 88], [], false, []⟩
      (.answer 255) ⟨forwardingServer 8 [88, 77], [], [(queuedFrame 88, 255)], false, []⟩ :=
    LinkStep.answer rfl rfl
  have hpop : LinkStep ⟨forwardingServer 8 [88, 77], [], [(queuedFrame 88, 255)], false, []⟩
      (.event quietEnv (.forwardData (some 255)))
      ⟨forwardingServer 8 [88], [], [], false, [(queuedFrame 88, queuedFrame 77)]⟩ :=
    LinkStep.consume (by decide) rfl rfl rfl
  refine ⟨_, Run.cons connect_step <| Run.cons waiting_step <| Run.cons hclose <| Run.cons hend <|
    Run.cons hagain <| Run.cons hnew <| Run.cons hanswer <| Run.cons hpop (Run.nil _),
    (.event quietEnv (.forwardData (some 255)),
      ⟨forwardingServer 8 [88], [], [], false, [(queuedFrame 88, queuedFrame 77)]⟩), ?_,
    (queuedFrame 88, queuedFrame 77), List.mem_singleton.mpr rfl, rfl, rfl⟩
  simp only [List.mem_cons, true_or, or_true]

end MipStack
