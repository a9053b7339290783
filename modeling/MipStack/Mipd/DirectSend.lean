import MipStack.Mipd.Server

/-!
# A message for a neighbour, sent directly and over the forward queue

* `routedSend`            the routed path: the package of `create_queueable`, requested on an empty
                          forward queue, with the neighbour itself as the answer of routerd;
* `load_transport`        the placeholders of the queued package are replaced by what the direct
                          path writes in the first place;
* `direct_eq_routed`      **both paths send the same frames**, in every state.
-/

namespace MipStack

namespace MIPDServer

def routedSend (env : Env) (s : MIPDServer) (message : MIPDMessage) :
    Except Fault (MIPDServer × List Effect) :=
  match createQueueable env message with
  | none => .error .errorExit
  | some package =>
    (({ s with forwardQueue := [] } : MIPDServer).requestForwarding env package.mHeader.dstAddr
      package).1.handleForwardResponse message.mipAddress

/-- a new Ethernet frame, and the source address that was left open -/
theorem load_transport (i : InterfaceRecord) (e : MipArpCacheEntry) (eFrame : EtherFrame)
    (d : MIPAddress) (data : List UInt8) :
    load i e (MIPPackage.transport eFrame 255 d data)
      = MIPPackage.transport (createEthernetFrame e.dstInterface i.soName) i.mipAddress d data := rfl

variable {env : Env} {s : MIPDServer} {m : MIPDMessage}

theorem routedSend_eq (hw : s.writes env = true) (m : MIPDMessage) :
    s.routedSend env m =
      if s.cache.queryMipAddressSrcSocket m.mipAddress = -1 then .error .errorExit
      else match s.neighbor m.mipAddress with
        | .error f => .error f
        | .ok (i, e) => .ok ({ s with forwardQueue := [] },
            [.sendRaw (s.cache.queryMipAddressSrcSocket m.mipAddress)
              (MIPPackage.transport (createEthernetFrame e.dstInterface i.soName) i.mipAddress
                m.mipAddress m.data)]) := by
  have hw' : ({ s with forwardQueue := [] } : MIPDServer).writes env = true := hw
  rw [routedSend, createQueueable_eq]
  dsimp only
  rw [requestForwarding, if_pos hw']
  generalize hp : MIPPackage.transport
    (createTransportEthernetFrame env.layout .defaultMac .defaultMac) 255 m.mipAddress m.data = p
  have hr : (({ s with forwardQueue := [] } : MIPDServer).push (env.clock 0) p).forwardQueue.recv
      = some (⟨p.mHeader.dstAddr, p, env.clock 0⟩, []) := rfl
  show (({ s with forwardQueue := [] } : MIPDServer).push (env.clock 0) p).handleForwardResponse _ = _
  rw [handleForwardResponse_of_recv hr, ← hp]
  simp only [load_transport]
  rfl

theorem routedSend_of_not_writes (hw : ¬ s.writes env = true) (m : MIPDMessage) :
    ∃ f, s.routedSend env m = .error f := by
  have hw' : ¬ ({ s with forwardQueue := [] } : MIPDServer).writes env = true := hw
  rw [routedSend, createQueueable_eq]
  dsimp only
  rw [requestForwarding, if_neg hw']
  dsimp only
  rw [handleForwardResponse_of_empty rfl]
  split
  · exact ⟨_, rfl⟩
  · split
    · exact ⟨_, rfl⟩
    · exact ⟨_, rfl⟩

/-- **Direct send and routed send agree.**  What the two paths send is the same frame on the same
socket.  While requests can be written, one path sends if and only if the other does, and in a
running mipd both send. -/
theorem direct_eq_routed (env : Env) (s : MIPDServer) (m : MIPDMessage)
    (hcached : ∃ e ∈ s.cache.entries, e.mipAddress = m.mipAddress) :
    (∀ direct s' routed, s.handleDomainSocketRequest m = .ok (some direct) →
      s.routedSend env m = .ok (s', routed) → routed = direct) ∧
    (s.writes env = true → ∀ sent, s.handleDomainSocketRequest m = .ok (some sent) ↔
      s.routedSend env m = .ok ({ s with forwardQueue := [] }, sent)) ∧
    (s.writes env = true → s.SocketsKnown → ∃ sock p,
      s.handleDomainSocketRequest m = .ok (some [.sendRaw sock p]) ∧
        s.routedSend env m = .ok ({ s with forwardQueue := [] }, [.sendRaw sock p])) := by
  have hsame : s.writes env = true → ∀ sent, s.handleDomainSocketRequest m = .ok (some sent) ↔
      s.routedSend env m = .ok ({ s with forwardQueue := [] }, sent) := by
    intro hw sent
    rw [handleDomainSocketRequest_eq, routedSend_eq hw]
    split
    · simp
    · cases s.neighbor m.mipAddress with
      | error f => simp
      | ok x => simp
  refine ⟨fun direct s' routed hdirect hrouted => ?_, hsame, fun hw hknown => ?_⟩
  · by_cases hw : s.writes env = true
    · rw [(hsame hw direct).mp hdirect] at hrouted
      exact (Prod.mk.inj (Except.ok.inj hrouted)).2.symm
    · obtain ⟨f, hf⟩ := routedSend_of_not_writes hw m
      rw [hf] at hrouted
      cases hrouted
  · rcases hknown.handleDomainSocketRequest m with ⟨hnone, _⟩ | ⟨i, e, _, _, _, hsent⟩
    · have hsome := MipArpCache.queryMipAddressPos_isSome.mpr hcached
      rw [hnone] at hsome
      cases hsome
    · exact ⟨_, _, hsent, (hsame hw _).mp hsent⟩

/-- one interface, its neighbour 20 in the cache, and a routerd on descriptor 5 -/
def oneNeighbor : MIPDServer :=
  ⟨4, -1, 5, oneInterface, ⟨[⟨20, 3, fun _ => 1, 0⟩], CACHE_UPDATE_FREQ_MILLI, 0⟩, []⟩

theorem direct_eq_routed_oneNeighbor : ∃ sock p,
    oneNeighbor.handleDomainSocketRequest ⟨20, [80, 73, 78, 71], by decide⟩
        = .ok (some [.sendRaw sock p]) ∧
      oneNeighbor.routedSend quietEnv ⟨20, [80, 73, 78, 71], by decide⟩
        = .ok ({ oneNeighbor with forwardQueue := [] }, [.sendRaw sock p]) :=
  (direct_eq_routed quietEnv oneNeighbor ⟨20, [80, 73, 78, 71], by decide⟩
    ⟨_, List.mem_singleton_self _, rfl⟩).2.2 rfl fun e he => by
      obtain rfl := List.mem_singleton.mp he
      rfl

end MIPDServer

end MipStack
