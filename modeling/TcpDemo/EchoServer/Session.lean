import TcpDemo.EchoServer.Task

/-!
# Client sessions of the echo server

A session is what the server issues between an accepted connection and its close.
`session_form` says what a session looks like, whatever happened before it: the
opening calls, one `Exchange` for each chunk, and the closing calls once a `recv`
returns nothing. What one client sees of the others follows from it
(`session_isolated`).
-/

namespace TcpDemo.EchoServer
open Interaction Traces CBytes FreeRTOS FreeRTOS.Call

/-- A session starts when `accept` returns anything but `FREERTOS_INVALID_SOCKET` and
ends with `closesocket`. -/
def boundary : Event Api → Option (Option Socket)
  | ⟨.accept _, s⟩ => if s = .invalid then none else some (some s)
  | ⟨.closesocket _, _⟩ => some none
  | _ => none

/-- The sessions of a trace, each with its socket and what was issued in it. -/
def sessions (tr : Trace Api) : List (Socket × Trace Api) := intervals boundary tr

/-- What is issued when a session ends, up to the close. -/
def closing (s : Socket) (a : RecvAnswer (rxBufferSize - 1)) : Trace Api :=
  [⟨.recv s 0 (rxBufferSize - 1), a⟩, ⟨printf clientDisconnected, ()⟩]

/-- A session that is still receiving: the opening calls and one exchange a chunk. -/
def ongoing (s : Socket) (o : ℤ) (xs : List Exchange) : Trace Api :=
  opening s o ++ xs.flatMap (Exchange.events s)

/-- The two forms a session has at the loop heads of the server. -/
inductive SessionForm (s : Socket) : Trace Api → Prop where
  | ongoing (o : ℤ) (xs : List Exchange) : SessionForm s (ongoing s o xs)
  | ended (o : ℤ) (xs : List Exchange) (a : RecvAnswer (rxBufferSize - 1))
      (ha : a.result ≤ 0) : SessionForm s (EchoServer.ongoing s o xs ++ closing s a)

/-! ## Every session has one of the two forms -/

/-- The loop invariant: in the inner loop a session is under way, elsewhere none is; all
earlier sessions have one of the two forms. -/
def SessionInv : FreeRTOS.Label Loc → Trace Api → Prop
  | .code (.session v), tr =>
      ∃ o xs, Busy SessionForm boundary tr v.xClientSocket (ongoing v.xClientSocket o xs)
  | .vAssertCalled looping _, tr => looping = 0 ∧ Idle SessionForm boundary tr
  | _, tr => Idle SessionForm boundary tr

theorem sessionInv_step (rx : Buffer rxBufferSize) (l : FreeRTOS.Label Loc) (tr evs : Trace Api)
    (l' : FreeRTOS.Label Loc) (h : SessionInv l tr)
    (hstep : ((prvEchoServerTask rx).body l).Issues evs l') : SessionInv l' (tr ++ evs) := by
  match l with
  | .vAssertCalled looping v =>
    rcases vAssertCalled_step hstep with ⟨h0, rfl, rfl⟩ | ⟨h0, -, -⟩
    · exact ⟨h0, h.2.append _ (by simp [boundary])⟩
    · exact absurd h.1 h0
  | .code (.start v) =>
    rcases start_step hstep with ⟨s, rfl, rfl⟩ | ⟨rfl, rfl⟩
    · exact Idle.append h _ (by simp [boundary])
    · exact ⟨rfl, Idle.append h _ (by simp [boundary])⟩
  | .code (.created v) =>
    obtain ⟨b, n, rfl, rfl⟩ := created_step hstep
    exact Idle.append h _ (by simp [boundary])
  | .code (.accepting v) =>
    rcases accepting_step hstep with ⟨rfl, rfl⟩ | ⟨s, o, hs, rfl, rfl⟩
    · exact Idle.append h _ (by simp [boundary])
    · have hwaiting := Idle.append h [⟨printf waiting, ()⟩] (by simp [boundary])
      have hopen : boundary ⟨accept v.xListenSocket, s⟩ = some (some s) := by simp [boundary, hs]
      have hbusy := hwaiting.start (opening s o) hopen (by simp [opening, boundary])
      exact ⟨o, [], by simpa [ongoing] using hbusy⟩
  | .code (.session v) =>
    obtain ⟨o, xs, hbusy⟩ := h
    rcases session_step hstep with ⟨a, c, ha, rfl, rfl⟩ | ⟨x, b, rfl, rfl⟩
    · have hlast := hbusy.append (closing v.xClientSocket a) (by simp [closing, boundary])
      have hclose : boundary ⟨closesocket v.xClientSocket, c⟩ = some none := rfl
      have hidle := hlast.stop (.ended o xs a ha) [] hclose (by simp)
      simpa [SessionInv, closing, rxBufferSize] using hidle
    · have hlast := hbusy.append (x.events v.xClientSocket) (by simp [Exchange.events, boundary])
      exact ⟨o, xs ++ [x], by simpa [ongoing] using hlast⟩

theorem SessionInv.settled {l : FreeRTOS.Label Loc} {tr : Trace Api} (h : SessionInv l tr) :
    ∀ s evs, (s, evs) ∈ sessions tr → SessionForm s evs := by
  match l with
  | .vAssertCalled _ _ => exact h.2.settled
  | .code (.start _) => exact Idle.settled h
  | .code (.created _) => exact Idle.settled h
  | .code (.accepting _) => exact Idle.settled h
  | .code (.session v) =>
    obtain ⟨o, xs, hbusy⟩ := h
    exact hbusy.settled (.ongoing o xs)

/-- **Every session has one of the two forms**, whatever happened before it. -/
theorem session_form {rx : Buffer rxBufferSize} {env : Environment Api} {m : ℕ} {s : Socket}
    {evs : Trace Api} (h : (s, evs) ∈ sessions ((prvEchoServerTask rx).head env m).2) :
    SessionForm s evs := by
  have hinv := Task.head_induction (prvEchoServerTask rx) SessionInv idle_nil (sessionInv_step rx)
    env m
  exact hinv.settled _ _ h

/-! ## What a session shows of the others -/

/-- The value and the stored bytes of each `recv`. -/
def recvResults (evs : Trace Api) : List (ℤ × List UInt8) :=
  evs.filterMap fun
    | ⟨.recv _ _ _, a⟩ => some (a.result, a.data)
    | _ => none

/-- The bytes passed to each `send`. -/
def sentBuffers (evs : Trace Api) : List (List UInt8) :=
  evs.filterMap fun
    | ⟨.send _ data, _⟩ => some data
    | _ => none

/-- The texts passed to the log. -/
def logged (evs : Trace Api) : List (List UInt8) :=
  evs.filterMap fun
    | ⟨.printf text, _⟩ => some text
    | _ => none

theorem recvResults_append (evs evs' : Trace Api) :
    recvResults (evs ++ evs') = recvResults evs ++ recvResults evs' := List.filterMap_append
theorem sentBuffers_append (evs evs' : Trace Api) :
    sentBuffers (evs ++ evs') = sentBuffers evs ++ sentBuffers evs' := List.filterMap_append
theorem logged_append (evs evs' : Trace Api) :
    logged (evs ++ evs') = logged evs ++ logged evs' := List.filterMap_append

/-- The log text for one result of `recv`. -/
def logOf (r : ℤ × List UInt8) : List UInt8 :=
  if r.1 ≤ 0 then clientDisconnected else rxLog (cstr r.2)

theorem recvResults_ongoing (s : Socket) (o : ℤ) (xs : List Exchange) :
    recvResults (ongoing s o xs) = xs.map fun x => (x.recv.result, x.recv.data) := by
  simp [recvResults, ongoing, opening, Exchange.events, List.filterMap_flatMap,
    List.map_eq_flatMap]

theorem sentBuffers_ongoing (s : Socket) (o : ℤ) (xs : List Exchange) :
    sentBuffers (ongoing s o xs) = xs.map fun x => x.recv.data := by
  simp [sentBuffers, ongoing, opening, Exchange.events, List.filterMap_flatMap,
    List.map_eq_flatMap]

theorem logged_ongoing (s : Socket) (o : ℤ) (xs : List Exchange) :
    logged (ongoing s o xs) = clientConnected :: xs.map fun x => rxLog (cstr x.recv.data) := by
  simp [logged, ongoing, opening, Exchange.events, List.filterMap_flatMap, List.map_eq_flatMap]

/-- The buffers passed to `send` are determined by the results of `recv`. -/
theorem SessionForm.sentBuffers_eq {s : Socket} {evs : Trace Api} (h : SessionForm s evs) :
    sentBuffers evs = ((recvResults evs).filter (0 < ·.1)).map Prod.snd := by
  have hxs : ∀ xs : List Exchange,
      (xs.map fun x => (x.recv.result, x.recv.data)).filter (0 < ·.1) =
        xs.map fun x => (x.recv.result, x.recv.data) := by
    intro xs
    rw [List.filter_eq_self]
    intro r hr
    obtain ⟨x, -, rfl⟩ := List.mem_map.mp hr
    simpa using x.positive
  cases h with
  | ongoing o xs => simp [recvResults_ongoing, sentBuffers_ongoing, hxs]
  | ended o xs a ha =>
    have hrecv : recvResults (closing s a) = [(a.result, a.data)] := rfl
    have hsent : sentBuffers (closing s a) = [] := rfl
    rw [recvResults_append, sentBuffers_append, hrecv, hsent, recvResults_ongoing,
      sentBuffers_ongoing, List.filter_append, hxs]
    simp [ha]

/-- The log of a session is determined by the results of `recv`. -/
theorem SessionForm.logged_eq {s : Socket} {evs : Trace Api} (h : SessionForm s evs) :
    logged evs = clientConnected :: (recvResults evs).map logOf := by
  have hxs : ∀ xs : List Exchange, (xs.map fun x => (x.recv.result, x.recv.data)).map logOf =
      xs.map fun x => rxLog (cstr x.recv.data) := by
    intro xs
    rw [List.map_map]
    refine List.map_congr_left fun x _ => ?_
    simp [logOf, x.positive]
  cases h with
  | ongoing o xs => rw [logged_ongoing, recvResults_ongoing, hxs]
  | ended o xs a ha =>
    have hrecv : recvResults (closing s a) = [(a.result, a.data)] := rfl
    have hlog : logged (closing s a) = [clientDisconnected] := rfl
    rw [recvResults_append, logged_append, hrecv, hlog, recvResults_ongoing, logged_ongoing,
      List.map_append, hxs]
    simp [logOf, ha]

/-- What was issued in the `k`-th session of a trace. -/
def sessionAt (tr : Trace Api) (k : ℕ) : Trace Api := ((sessions tr).map Prod.snd).getD k []

theorem exists_mem_sessions {tr : Trace Api} {k : ℕ} (hk : k < (sessions tr).length) :
    ∃ s, (s, sessionAt tr k) ∈ sessions tr := by
  have hat : sessionAt tr k = (sessions tr)[k].2 := by
    simp [sessionAt, List.getD_eq_getElem?_getD, hk]
  refine ⟨(sessions tr)[k].1, ?_⟩
  rw [hat]
  exact List.getElem_mem hk

/-- **Sessions are isolated.** If two runs agree on the results of `recv` in session
`k`, they pass the same buffers to `send` and the same texts to the log in it, whatever
was received before and whatever the receive buffer held at first. -/
theorem session_isolated {rx rx' : Buffer rxBufferSize} {env env' : Environment Api}
    {m m' k : ℕ} (hk : k < (sessions ((prvEchoServerTask rx).head env m).2).length)
    (hk' : k < (sessions ((prvEchoServerTask rx').head env' m').2).length)
    (hrecv : recvResults (sessionAt ((prvEchoServerTask rx).head env m).2 k) =
      recvResults (sessionAt ((prvEchoServerTask rx').head env' m').2 k)) :
    sentBuffers (sessionAt ((prvEchoServerTask rx).head env m).2 k) =
        sentBuffers (sessionAt ((prvEchoServerTask rx').head env' m').2 k) ∧
      logged (sessionAt ((prvEchoServerTask rx).head env m).2 k) =
        logged (sessionAt ((prvEchoServerTask rx').head env' m').2 k) := by
  obtain ⟨s, hmem⟩ := exists_mem_sessions hk
  obtain ⟨s', hmem'⟩ := exists_mem_sessions hk'
  have hform := session_form hmem
  have hform' := session_form hmem'
  rw [hform.sentBuffers_eq, hform'.sentBuffers_eq, hform.logged_eq, hform'.logged_eq, hrecv]
  exact ⟨rfl, rfl⟩

/-- Two runs whose first clients send `ab` and `wxyz`, and whose second clients both
send `A`. -/
theorem session_isolated_second_client :
    sentBuffers (sessionAt ((prvEchoServerTask (.replicate _ 0)).head
        (scripted (fun i => if i = 8 then ascii "ab" else if i = 18 then ascii "A" else [])
          fun _ => 200) 7).2 1) =
      sentBuffers (sessionAt ((prvEchoServerTask (.replicate _ 7)).head
        (scripted (fun i => if i = 8 then ascii "wxyz" else if i = 18 then ascii "A" else [])
          fun _ => 200) 7).2 1) :=
  (session_isolated (by decide +kernel) (by decide +kernel) (by decide +kernel)).1

end TcpDemo.EchoServer
