import TcpDemo.Linux.TcpServer

/-!
# Does the cutting of the terminal input matter?

The server looks for the command at the start of each `read`, so what a run does with a
terminal stream depends on where the reads cut it: the session is closed at the first
piece that begins with `quit`, and the pieces before it are sent. Two cuttings of one
stream are therefore treated alike exactly if the first such piece starts at the same
offset in both.
-/

namespace TcpDemo.Linux.TcpServer
open Interaction CBytes Posix.Call

/-! ## What a run shows -/

/-- The bytes a `read` has returned, if it has returned some. -/
def piece : Event Posix.Api → List (List UInt8)
  | ⟨.read _ _, a⟩ => if a.data = [] then [] else [a.data]
  | _ => []

/-- The pieces of terminal input of a trace. -/
def pieces (tr : Trace Posix.Api) : List (List UInt8) := tr.flatMap piece

/-- The bytes handed to a `send`. -/
def handed : Event Posix.Api → List UInt8
  | ⟨.send _ data, _⟩ => data
  | _ => []

def handedBytes (tr : Trace Posix.Api) : List UInt8 := tr.flatMap handed

/-- The session is closed because of the command. -/
def closes : Event Posix.Api → Bool
  | ⟨.printf text, _⟩ => text = closingConnection
  | _ => false

/-- Nothing goes wrong at this call: the set-up and `select` succeed, the client stays
connected, and a `send` accepts the whole buffer. -/
def steady : Event Posix.Api → Bool
  | ⟨.socket, r⟩ | ⟨.bind _ _ _, r⟩ | ⟨.listen _ _, r⟩ | ⟨.accept _, r⟩ => (0 : ℤ) ≤ r
  | ⟨.select _ _, a⟩ => 0 ≤ a.result
  | ⟨.recv _ _, a⟩ => 0 < a.result
  | ⟨.send _ data, r⟩ => (r : ℤ) = data.length
  | _ => true

@[simp] theorem pieces_nil : pieces [] = [] := rfl
@[simp] theorem pieces_append (tr tr' : Trace Posix.Api) :
    pieces (tr ++ tr') = pieces tr ++ pieces tr' := List.flatMap_append
@[simp] theorem pieces_cons (e : Event Posix.Api) (tr : Trace Posix.Api) :
    pieces (e :: tr) = piece e ++ pieces tr := rfl
@[simp] theorem handedBytes_nil : handedBytes [] = [] := rfl
@[simp] theorem handedBytes_append (tr tr' : Trace Posix.Api) :
    handedBytes (tr ++ tr') = handedBytes tr ++ handedBytes tr' := List.flatMap_append
@[simp] theorem handedBytes_cons (e : Event Posix.Api) (tr : Trace Posix.Api) :
    handedBytes (e :: tr) = handed e ++ handedBytes tr := rfl

/-! ## Cuttings -/

/-- A piece that is taken for the command. -/
def isQuit (c : List UInt8) : Bool := quit.isPrefixOf c

/-- The pieces in front of the first one that is taken for the command. -/
def beforeQuit (cs : List (List UInt8)) : List (List UInt8) := cs.takeWhile fun c => !isQuit c

/-- Where in the stream the first piece that begins with `quit` starts. -/
def quitOffset (cs : List (List UInt8)) : Option ℕ :=
  if cs.any isQuit then some (beforeQuit cs).flatten.length else none

/-- The server goes on: it has sent all pieces, and none was taken for the command. -/
structure Relaying (tr : Trace Posix.Api) : Prop where
  closes : tr.any closes = false
  handed : handedBytes tr = (pieces tr).flatten
  noQuit : (pieces tr).any isQuit = false

/-- The command was the last piece it has read, and all pieces before it are sent. -/
structure Closed (tr : Trace Posix.Api) : Prop where
  closes : tr.any closes
  last : ∃ cs c, pieces tr = cs ++ [c] ∧ handedBytes tr = cs.flatten ∧
    cs.any isQuit = false ∧ isQuit c

/-- The invariant of a run in which nothing goes wrong. -/
def ServedAt : Loc → Trace Posix.Api → Prop
  | .start _, tr => Relaying tr
  | .selecting _, tr => Relaying tr
  | .returned _, tr => Closed tr

/-- Calls that neither read from the terminal nor send or close. -/
structure Quiet (evs : Trace Posix.Api) : Prop where
  pieces : pieces evs = []
  handed : handedBytes evs = []
  closes : evs.any closes = false

section Run
variable {v : Vars} {tr evs : Trace Posix.Api}

theorem Relaying.append (h : Relaying tr) (hevs : Quiet evs) : Relaying (tr ++ evs) where
  closes := by rw [List.any_append, h.closes, hevs.closes, Bool.false_or]
  handed := by simp [hevs.pieces, hevs.handed, h.handed]
  noQuit := by simpa [hevs.pieces] using h.noQuit

theorem Closed.append (h : Closed tr) (hevs : Quiet evs) : Closed (tr ++ evs) where
  closes := by rw [List.any_append, h.closes, Bool.true_or]
  last := by simpa [hevs.pieces, hevs.handed] using h.last

/-- A piece that is not the command is sent. -/
theorem Relaying.sent (h : Relaying tr) {c : List UInt8} (hc : ¬ isQuit c)
    (hpieces : pieces evs = [c]) (hhanded : handedBytes evs = c)
    (hcloses : evs.any TcpServer.closes = false) : Relaying (tr ++ evs) where
  closes := by rw [List.any_append, h.closes, hcloses, Bool.false_or]
  handed := by simp [hpieces, hhanded, h.handed]
  noQuit := by simp [hpieces, hc, h.noQuit]

/-- The command closes the session. -/
theorem Relaying.close (h : Relaying tr) {c : List UInt8} (hc : isQuit c)
    (hpieces : pieces evs = [c]) (hhanded : handedBytes evs = [])
    (hcloses : evs.any TcpServer.closes) : Closed (tr ++ evs) where
  closes := by rw [List.any_append, hcloses, Bool.or_true]
  last := ⟨pieces tr, c, by simp [hpieces], by simp [hhanded, h.handed], h.noQuit, hc⟩

theorem linuxRx_ne (s : List UInt8) : linuxRx s ≠ closingConnection := by
  intro h
  have h := congrArg (List.take 7) h
  simp [linuxRx, closingConnection, ascii] at h

theorem linuxTx_ne (s : List UInt8) : linuxTx s ≠ closingConnection := by
  intro h
  have h := congrArg (List.take 7) h
  simp [linuxTx, closingConnection, ascii] at h

/-- While the client stays connected, its data do not end the loop. -/
theorem fromClient_steady {readfds : List ℤ} {r : Option Vars}
    (h : (fromClient readfds v).Issues evs r) (hsteady : evs.all steady) :
    Quiet evs ∧ ∃ buffer, r = some { v with buffer } := by
  rcases fromClient_step h with ⟨rfl, rfl⟩ | ⟨a, e, rfl, hcases⟩
  · exact ⟨⟨rfl, rfl, rfl⟩, v.buffer, rfl⟩
  have hpos : 0 < a.result := by
    simp [steady] at hsteady
    exact hsteady.1
  rcases hcases with ⟨hzero, -⟩ | ⟨hneg, -⟩ | ⟨-, rfl, buffer, rfl⟩
  · omega
  · omega
  · exact ⟨⟨rfl, rfl, by simp [closes, linuxRx_ne]⟩, buffer, rfl⟩

/-- The bytes a `read` has returned, where it has returned some. -/
theorem pieces_read {fd : ℤ} {size : ℕ} (a : Posix.ReadAnswer size) (h : 0 < a.result) :
    piece ⟨read fd size, a⟩ = [a.data] := by
  have hne : a.data ≠ [] := mt Posix.ReadAnswer.data_eq_nil_iff.mp (not_le.mpr h)
  simp [piece, hne]

/-- What is typed is sent, or closes the session. -/
theorem fromTerminal_steady {readfds : List ℤ} {r : Option Vars}
    (h : (fromTerminal readfds v).Issues evs r) (hsteady : evs.all steady) (hrel : Relaying tr) :
    (Relaying (tr ++ evs) ∧ ∃ buffer, r = some { v with buffer }) ∨
      Closed (tr ++ evs) ∧ r = none := by
  rcases fromTerminal_step h with ⟨rfl, rfl⟩ | ⟨a, rest, rfl, hcases⟩
  · exact .inl ⟨hrel.append ⟨rfl, rfl, rfl⟩, v.buffer, rfl⟩
  rcases hcases with ⟨hnone, rfl, buffer, rfl⟩ | ⟨hpos, hquit, rfl, rfl⟩ |
    ⟨hpos, hquit, sent, e, rfl, hsent⟩
  · left
    have hdata := Posix.ReadAnswer.data_eq_nil_iff.mpr hnone
    exact ⟨hrel.append ⟨by simp [piece, hdata], rfl, rfl⟩, buffer, rfl⟩
  · right
    refine ⟨hrel.close (List.isPrefixOf_iff_prefix.mpr hquit) ?_ rfl (by simp [closes]), rfl⟩
    rw [pieces_cons, pieces_read a hpos]
    rfl
  · left
    have hnonneg : (0 : ℤ) ≤ sent := by
      simp [steady] at hsteady
      rw [hsteady.1]
      exact Int.natCast_nonneg _
    rcases hsent with ⟨hneg, -⟩ | ⟨-, rfl, buffer, rfl⟩
    · exact absurd hneg (not_lt.mpr hnonneg)
    refine ⟨hrel.sent (mt List.isPrefixOf_iff_prefix.mp hquit) ?_ ?_ ?_, buffer, rfl⟩
    · rw [pieces_cons, pieces_read a hpos]
      rfl
    · simp [handed]
    · simp [closes, linuxTx_ne]

theorem not_failedSetup {e : Event Posix.Api} (h : steady e) : ¬ failedSetup e := by
  obtain ⟨c, a⟩ := e
  cases c <;> simp_all [steady, failedSetup]

theorem servedAt_step (l : Loc) (tr evs : Trace Posix.Api) (l' : Loc)
    (h : tr.all steady → ServedAt l tr) (hstep : (body l).Issues evs l')
    (hsteady : (tr ++ evs).all steady) : ServedAt l' (tr ++ evs) := by
  rw [List.all_append, Bool.and_eq_true] at hsteady
  obtain ⟨htr, hevs⟩ := hsteady
  specialize h htr
  cases l with
  | start b =>
    rcases start_step hstep with ⟨hfailed, rfl⟩ | ⟨s, c, rb, rl, rfl, rfl⟩
    · obtain ⟨e, he, hfailed⟩ := List.any_eq_true.mp hfailed
      have hok := List.all_eq_true.mp hevs e he
      exact absurd hfailed (not_failedSetup hok)
    · exact h.append ⟨rfl, rfl, rfl⟩
  | selecting v =>
    obtain ⟨ready, rest, rfl, ⟨hneg, -⟩ | ⟨-, first, received, second, rfl, hfirst, hcases⟩⟩ :=
      selecting_step hstep
    · simp only [List.all_cons, Bool.and_eq_true, steady, decide_eq_true_eq] at hevs
      exact absurd hneg (not_lt.mpr hevs.1)
    rw [List.append_cons, ← List.append_assoc]
    simp only [List.all_cons, List.all_append, Bool.and_eq_true] at hevs
    obtain ⟨-, hsteady, hevs⟩ := hevs
    obtain ⟨hquiet, buffer, rfl⟩ := fromClient_steady hfirst hsteady
    have hselect : Quiet [⟨select (maxfd v + 1) [v.clientFd, Posix.stdinFileno], ready⟩] :=
      ⟨rfl, rfl, rfl⟩
    have hrel := (Relaying.append h hselect).append hquiet
    rcases hcases with ⟨hnone, -⟩ | ⟨v', third, typed, last, hv', rfl, hthird, hcases⟩
    · simp at hnone
    simp only [List.all_append, Bool.and_eq_true] at hevs
    rw [← List.append_assoc]
    rcases fromTerminal_steady hthird hevs.1 hrel with ⟨hrel, buffer', rfl⟩ | ⟨hclosed, rfl⟩
    · rcases hcases with ⟨hnone, -⟩ | ⟨v'', -, rfl, rfl⟩
      · simp at hnone
      · simpa [ServedAt] using hrel
    · rcases hcases with ⟨-, hfinish⟩ | ⟨v'', hsome, -⟩
      · obtain ⟨c, s, rfl, rfl⟩ := finish_step hfinish
        exact hclosed.append ⟨rfl, rfl, rfl⟩
      · simp at hsome
  | returned status =>
    obtain ⟨rfl, rfl⟩ := Program.issues_ret.mp hstep
    exact h.append ⟨rfl, rfl, rfl⟩

theorem servedAt (b : Buffer bufSize) (env : Environment Posix.Api) (k : ℕ)
    (h : ((main b).head env k).2.all steady) :
    ServedAt ((main b).head env k).1 ((main b).head env k).2 :=
  Task.head_induction (main b) (fun l tr => tr.all steady → ServedAt l tr)
    (fun _ => ⟨rfl, rfl, rfl⟩) servedAt_step env k h

end Run

/-! ## Two cuttings -/

/-- At the `k`-th loop head of the run, the terminal input `cs` has been typed: all of it is
read, or the server has returned and read no further. -/
structure Typed (b : Buffer bufSize) (env : Environment Posix.Api) (k : ℕ)
    (cs : List (List UInt8)) : Prop where
  steady : ((main b).head env k).2.all steady
  read : pieces ((main b).head env k).2 = cs ∨
    (∃ status, ((main b).head env k).1 = .returned status) ∧
      pieces ((main b).head env k).2 <+: cs

section Cuttings
variable {cs ds : List (List UInt8)}

theorem beforeQuit_eq_self (h : cs.any isQuit = false) : beforeQuit cs = cs := by
  rw [beforeQuit, List.takeWhile_eq_self_iff]
  intro c hc
  simpa using List.any_eq_false.mp h c hc

/-- What a run does with the pieces that are typed. -/
theorem Typed.outcome {b : Buffer bufSize} {env : Environment Posix.Api} {k : ℕ}
    (h : Typed b env k cs) : ((main b).head env k).2.any closes = cs.any isQuit ∧
      handedBytes ((main b).head env k).2 = (beforeQuit cs).flatten := by
  have hserved := servedAt b env k h.steady
  have hread := h.read
  generalize ((main b).head env k).2 = tr at hserved hread
  generalize ((main b).head env k).1 = l at hserved hread
  have hrelaying : Relaying tr → pieces tr = cs →
      tr.any closes = cs.any isQuit ∧ handedBytes tr = (beforeQuit cs).flatten := by
    rintro hrel rfl
    rw [hrel.closes, hrel.noQuit, beforeQuit_eq_self hrel.noQuit]
    exact ⟨rfl, hrel.handed⟩
  cases l with
  | start b => exact hrelaying hserved (by simpa using hread)
  | selecting v => exact hrelaying hserved (by simpa using hread)
  | returned status =>
    obtain ⟨ps, c, hpieces, hhanded, hps, hc⟩ := hserved.last
    obtain ⟨qs, rfl⟩ : pieces tr <+: cs := hread.elim (fun h => h ▸ List.prefix_rfl) And.right
    have hbefore : beforeQuit (ps ++ [c] ++ qs) = ps := by
      rw [beforeQuit, List.append_assoc, List.takeWhile_append_of_pos]
      · simp [hc]
      · intro d hd
        simpa using List.any_eq_false.mp hps d hd
    rw [hpieces, hbefore, hserved.closes, hhanded]
    simp [hc]

theorem flatten_beforeQuit_isPrefix (cs : List (List UInt8)) :
    (beforeQuit cs).flatten <+: cs.flatten := by
  obtain ⟨qs, hqs⟩ := List.takeWhile_prefix (l := cs) fun c => !isQuit c
  refine ⟨qs.flatten, ?_⟩
  rw [beforeQuit, ← List.flatten_append, hqs]

/-- Of one stream, the same bytes are sent before the command if and only if it is found at
the same offset. -/
theorem quitOffset_eq_iff (h : cs.flatten = ds.flatten) : quitOffset cs = quitOffset ds ↔
    cs.any isQuit = ds.any isQuit ∧ (beforeQuit cs).flatten = (beforeQuit ds).flatten := by
  rw [quitOffset, quitOffset]
  cases hcs : cs.any isQuit <;> cases hds : ds.any isQuit
  · simpa [beforeQuit_eq_self hcs, beforeQuit_eq_self hds] using h
  · simp
  · simp
  · -- both are prefixes of the stream
    have hpre := flatten_beforeQuit_isPrefix cs
    rw [h] at hpre
    simp only [if_true, Option.some.injEq, true_and]
    constructor
    · intro hlen
      exact (List.prefix_of_prefix_length_le hpre (flatten_beforeQuit_isPrefix ds)
        hlen.le).eq_of_length hlen
    · exact congrArg List.length

/-- The pieces a `read` of the server can return. -/
def Readable (cs : List (List UInt8)) : Prop := ∀ c ∈ cs, 1 ≤ c.length ∧ c.length ≤ bufSize - 1

/-- The server reads a piece, and closes the session or sends it. -/
theorem selecting_typed {v : Vars} (hv : v.clientFd ≠ Posix.stdinFileno) {c : List UInt8}
    (hc : 1 ≤ c.length ∧ c.length ≤ bufSize - 1) : ∃ evs l,
      (body (.selecting v)).Issues evs l ∧ evs.all steady ∧ pieces evs = [c] ∧
      (isQuit c ∧ l = .returned 0 ∨ ∃ v', l = .selecting v' ∧ v'.clientFd = v.clientFd) := by
  obtain ⟨a, ha⟩ : ∃ a : Posix.ReadAnswer (bufSize - 1), a = .store c hc.2 := ⟨_, rfl⟩
  have hpos : 0 < a.result := by rw [ha]; exact Int.natCast_pos.mpr hc.1
  have hdata : a.data = c := by rw [ha]; rfl
  have hpieces : ∀ rest, pieces rest = [] →
      pieces (⟨read Posix.stdinFileno (bufSize - 1), a⟩ :: rest) = [c] := by
    intro rest hrest
    rw [pieces_cons, pieces_read a hpos, hrest, hdata, List.append_nil]
  have hcmd := strncmp_quit v.buffer a
  obtain ⟨hbytes, hstr⟩ := buffer_after_read v.buffer a
  have hsent : ¬ (a.data.length : ℤ) < 0 := not_lt.mpr (Int.natCast_nonneg _)
  by_cases hquit : quit <+: a.data
  · refine ⟨[⟨select (maxfd v + 1) [v.clientFd, Posix.stdinFileno], ⟨1, [Posix.stdinFileno]⟩⟩,
      ⟨read Posix.stdinFileno (bufSize - 1), a⟩, ⟨printf closingConnection, ()⟩,
      ⟨close v.clientFd, (0 : ℤ)⟩, ⟨close v.serverFd, (0 : ℤ)⟩], .returned 0, ?_, ?_, ?_, ?_⟩
    · simp [body, fromClient, fromTerminal, hv, hpos, hcmd.mpr hquit, finish]
    · simp [steady]
    · exact hpieces _ rfl
    · exact .inl ⟨List.isPrefixOf_iff_prefix.mpr (hdata ▸ hquit), rfl⟩
  · refine ⟨[⟨select (maxfd v + 1) [v.clientFd, Posix.stdinFileno], ⟨1, [Posix.stdinFileno]⟩⟩,
      ⟨read Posix.stdinFileno (bufSize - 1), a⟩, ⟨send v.clientFd a.data, (a.data.length : ℤ)⟩,
      ⟨printf (linuxTx (cstr a.data)), ()⟩], .selecting { v with
        buffer := (v.buffer.write 0 a.data).write a.result.toNat [0] }, ?_, ?_, ?_, ?_⟩
    · simp [body, fromClient, fromTerminal, hv, hpos, mt hcmd.mp hquit, hbytes]
      rw [if_neg hsent]
      simp [hstr]
    · simp [steady]
    · exact hpieces _ rfl
    · exact .inr ⟨_, rfl, rfl⟩

/-- From the loop on, the server reads all pieces, or returns before. -/
theorem selecting_path (b : Buffer bufSize) {cs : List (List UInt8)} (hcs : Readable cs) {v : Vars}
    (hv : v.clientFd ≠ Posix.stdinFileno) : ∃ tr l, (main b).Path (.selecting v) tr l ∧
      tr.all steady ∧ (pieces tr = cs ∨ (∃ status, l = .returned status) ∧ pieces tr <+: cs) := by
  induction cs generalizing v with
  | nil => exact ⟨[], _, .refl _, rfl, .inl rfl⟩
  | cons c cs ih =>
    obtain ⟨hc, hcs⟩ := List.forall_mem_cons.mp hcs
    obtain ⟨evs, l, hstep, hsteady, hpieces, hl⟩ := selecting_typed hv hc
    have hpath : (main b).Path (.selecting v) evs l := .single hstep
    rcases hl with ⟨-, rfl⟩ | ⟨v', rfl, hv'⟩
    · exact ⟨evs, _, hpath, hsteady, .inr ⟨⟨0, rfl⟩, by simp [hpieces]⟩⟩
    · obtain ⟨tr, l, htail, hsteady', hread⟩ := ih hcs (v := v') (by rw [hv']; exact hv)
      refine ⟨evs ++ tr, l, hpath.trans htail, by simp [hsteady, hsteady'], ?_⟩
      rcases hread with hread | ⟨hreturned, hread⟩
      · exact .inl (by simp [hpieces, hread])
      · exact .inr ⟨hreturned, by simpa [hpieces] using hread⟩

/-- Every cutting is typed in some run. -/
theorem exists_typed (b : Buffer bufSize) (hcs : Readable cs) : ∃ env k, Typed b env k cs := by
  have hstart : (main b).Path (.start b)
      [⟨signalIgnoreSigpipe, ()⟩, ⟨socket, (3 : ℤ)⟩, ⟨bind 3 0 serverPort, (0 : ℤ)⟩,
        ⟨listen 3 1, (0 : ℤ)⟩, ⟨printf listening, ()⟩, ⟨accept 3, (4 : ℤ)⟩,
        ⟨printf clientConnected, ()⟩, ⟨printf typeMessages, ()⟩]
      (.selecting ⟨3, 4, b⟩) := by
    refine .single ?_
    simp [main, body]
  obtain ⟨tr, l, hpath, hsteady, hread⟩ := selecting_path b hcs (v := ⟨3, 4, b⟩)
    (show (4 : ℤ) ≠ 0 by decide)
  obtain ⟨env, k, hk⟩ := Task.exists_head_of_path (hstart.trans hpath)
  refine ⟨env, k, ⟨?_, ?_⟩⟩
  · rw [hk]
    simpa [steady] using hsteady
  · rw [hk]
    simpa [piece] using hread

end Cuttings

/-- Somebody types on the terminal, and every `read` returns a piece: the set-up takes eight
calls, and each pass of the loop four. -/
def typing (cs : List (List UInt8)) : Environment Posix.Api
  | _, .select _ _ => ⟨1, [Posix.stdinFileno]⟩
  | i, .read _ size =>
      if h : (cs.getD ((i - 9) / 4) []).length ≤ size then .store _ h else default
  | _, .send _ data => (data.length : ℤ)
  | _, .socket => (3 : ℤ)
  | _, .accept _ => (4 : ℤ)
  | _, .bind _ _ _ | _, .listen _ _ | _, .connect _ _ _ | _, .close _ => (0 : ℤ)
  | _, .recv _ _ => default
  | _, .signalIgnoreSigpipe | _, .printf _ | _, .perror _ => ()

/-- **When the cutting does not matter.** Two runs in which nothing goes wrong and one
stream is typed, in two cuttings, close the session alike and have sent the same bytes,
if and only if the first piece that begins with `quit` starts at the same offset in both
cuttings, or both have no such piece. -/
theorem cutting_irrelevant_iff {b b' : Buffer bufSize} {env env' : Environment Posix.Api}
    {k k' : ℕ} {cs ds : List (List UInt8)} (h : Typed b env k cs) (h' : Typed b' env' k' ds)
    (hstream : cs.flatten = ds.flatten) :
    (((main b).head env k).2.any closes = ((main b').head env' k').2.any closes ∧
      handedBytes ((main b).head env k).2 = handedBytes ((main b').head env' k').2) ↔
    quitOffset cs = quitOffset ds := by
  obtain ⟨hcloses, hhanded⟩ := h.outcome
  obtain ⟨hcloses', hhanded'⟩ := h'.outcome
  rw [hcloses, hcloses', hhanded, hhanded', quitOffset_eq_iff hstream]

/-- "hi" and the command, with "hi" in one piece or in two. -/
theorem cutting_irrelevant_hi :
    ((main (.replicate bufSize 0)).head (typing [ascii "hi", quit]) 3).2.any closes =
      ((main (.replicate bufSize 0)).head (typing [ascii "h", ascii "i", quit]) 4).2.any closes ∧
    handedBytes ((main (.replicate bufSize 0)).head (typing [ascii "hi", quit]) 3).2 =
      handedBytes ((main (.replicate bufSize 0)).head
        (typing [ascii "h", ascii "i", quit]) 4).2 := by
  have h : Typed (.replicate bufSize 0) (typing [ascii "hi", quit]) 3 [ascii "hi", quit] :=
    ⟨by decide +kernel, .inl (by decide +kernel)⟩
  have h' : Typed (.replicate bufSize 0) (typing [ascii "h", ascii "i", quit]) 4
      [ascii "h", ascii "i", quit] := ⟨by decide +kernel, .inl (by decide +kernel)⟩
  exact (cutting_irrelevant_iff h h' (by decide)).mpr (by decide)

/-- The command closes the session in one piece, and is sent to the client in two. -/
theorem cutting_matters_quit : ¬ ∀ (b : Buffer bufSize) env env' k k' cs ds,
    Readable cs → Readable ds → cs.flatten = ds.flatten →
    Typed b env k cs → Typed b env' k' ds →
    ((main b).head env k).2.any closes = ((main b).head env' k').2.any closes ∧
      handedBytes ((main b).head env k).2 = handedBytes ((main b).head env' k').2 := by
  intro h
  have hcloses := (h (.replicate bufSize 0) (typing [quit]) (typing [ascii "qu", ascii "it"]) 2 3
    [quit] [ascii "qu", ascii "it"] (by simp [Readable, quit, ascii, bufSize])
    (by simp [Readable, ascii, bufSize]) (by decide)
    ⟨by decide +kernel, .inl (by decide +kernel)⟩
    ⟨by decide +kernel, .inl (by decide +kernel)⟩).1
  exact absurd hcloses (by decide +kernel)

end TcpDemo.Linux.TcpServer
