import Xpipe.EventLoop

/-!
# The connection pool

The entries of the connection array are on the free list or in use, and the open
client descriptors are those of the entries in use. `Wired` and `Fds` are the
invariants of the loop: they hold after every round, also in the middle of a
batch, where the rest of the batch hangs on the same links as the free list.
-/
namespace Xpipe
open Linked Runs

/-- The links of the connections. -/
def Net.links (s : Net) (e : ℕ) : Option ℕ := (s.conns e).next

/-- The free list `free`, the rest `act` of the batch, and the entries in use. -/
structure Wired (s : Net) (free act : List ℕ) : Prop where
  freeList : Chain s.links s.connectionPool free
  actList : Chain s.links s.cursor act
  parts : (free ++ s.taken).Perm (List.range s.count)
  nodup : act.Nodup
  inUse : ∀ e ∈ act, e ∈ s.taken
  idle : s.cursor = none → s.activeConns = none

/-- The open client descriptors are those of the client connections in use, but
for one that is still to be given to a connection. -/
structure Fds (s : Net) (extra : Option ℤ) : Prop where
  client : ∀ e ∈ s.taken, (s.conns e).isListen = false → (s.conns e).connFd ∈ s.kernel.clients
  listen : ∀ e ∈ s.taken, (s.conns e).isListen = true → (s.conns e).connFd = s.sockFd
  server : s.sockFd ∉ s.kernel.clients
  held : ∀ fd ∈ s.kernel.clients, extra = some fd ∨
    ∃ e ∈ s.taken, (s.conns e).isListen = false ∧ (s.conns e).connFd = fd
  extra : ∀ fd, extra = some fd → fd ∈ s.kernel.clients ∧ ∀ e ∈ s.taken, (s.conns e).connFd ≠ fd
  inj : ∀ e ∈ s.taken, ∀ e' ∈ s.taken, (s.conns e).connFd = (s.conns e').connFd → e = e'
  registered : ∀ fd m e, s.kernel.interest fd = some (m, e) → e ∈ s.taken ∧ (s.conns e).connFd = fd

lemma Wired.nodup_parts {s : Net} {free act : List ℕ} (h : Wired s free act) :
    (free ++ s.taken).Nodup := h.parts.nodup_iff.mpr List.nodup_range

lemma Wired.not_free {s : Net} {free act : List ℕ} (h : Wired s free act) {e : ℕ}
    (he : e ∈ s.taken) : e ∉ free :=
  fun hf => (List.nodup_append.mp h.nodup_parts).2.2 e hf e he rfl

/-! ## Handlers of one connection -/

/-- What the handlers of one connection leave alone. -/
structure Conn.Frame (c c' : Conn) : Prop where
  next : c'.next = c.next
  connFd : c'.connFd = c.connFd
  events : c'.events = c.events
  activeEvents : c'.activeEvents = c.activeEvents
  isListen : c'.isListen = c.isListen
  readEventHandler : c'.readEventHandler = c.readEventHandler
  pool : c'.pool = c.pool

lemma Conn.Frame.refl (c : Conn) : c.Frame c := ⟨rfl, rfl, rfl, rfl, rfl, rfl, rfl⟩

lemma Conn.Frame.trans {a b c : Conn} (h : a.Frame b) (h' : b.Frame c) : a.Frame c :=
  ⟨h'.next.trans h.next, h'.connFd.trans h.connFd, h'.events.trans h.events,
    h'.activeEvents.trans h.activeEvents, h'.isListen.trans h.isListen,
    h'.readEventHandler.trans h.readEventHandler, h'.pool.trans h.pool⟩

lemma tcpServerSend_frame (c : Conn) (ws : List WriteResult) : c.Frame (tcpServerSend c ws) := by
  unfold tcpServerSend
  split
  · exact .refl c
  · simp only
    split <;> exact ⟨rfl, rfl, rfl, rfl, rfl, rfl, rfl⟩

lemma tcpRequestFinish_frame (c : Conn) (t : Trace) (r : Request) (ws : List WriteResult) :
    c.Frame (tcpRequestFinish c t r ws).1 := by
  have hsend := tcpServerSend_frame { c with request := some (tcpResponeGenerate r) } ws
  have hframe : c.Frame (tcpServerSend { c with request := some (tcpResponeGenerate r) } ws) :=
    ⟨hsend.next, hsend.connFd, hsend.events, hsend.activeEvents, hsend.isListen,
      hsend.readEventHandler, hsend.pool⟩
  unfold tcpRequestFinish
  simp only
  split
  · exact hframe
  · split_ifs
    · exact ⟨hframe.next, hframe.connFd, hframe.events, hframe.activeEvents, hframe.isListen,
        hframe.readEventHandler, hframe.pool⟩
    · exact hframe

lemma tcpRequestProcess_frame (c : Conn) (t : Trace) (r : Request) (code : Code) (o : Outcomes) :
    c.Frame (tcpRequestProcess c t r code o).1 := by
  unfold tcpRequestProcess
  split
  · split_ifs
    · exact tcpRequestFinish_frame ..
    · exact ⟨rfl, rfl, rfl, rfl, rfl, rfl, rfl⟩
  all_goals exact tcpRequestFinish_frame ..

lemma recvInto_frame (e : ℕ) (c : Conn) (t : Trace) (r : Request) (o : Outcomes) :
    c.Frame (recvInto e c t r o).1 := by
  have hset : c.Frame { c with request := some r } := ⟨rfl, rfl, rfl, rfl, rfl, rfl, rfl⟩
  unfold recvInto
  simp only
  split
  · exact hset
  · exact ⟨rfl, rfl, rfl, rfl, rfl, rfl, rfl⟩
  · split_ifs
    · exact ⟨rfl, rfl, rfl, rfl, rfl, rfl, rfl⟩
    · exact hset.trans (tcpRequestProcess_frame ..)

lemma tcpServerRecv_frame (size e : ℕ) (c : Conn) (t : Trace) (o : Outcomes) :
    c.Frame (tcpServerRecv size e c t o).1 := by
  unfold tcpServerRecv
  split
  · exact recvInto_frame ..
  · split_ifs
    · exact recvInto_frame ..
    · exact .refl c
    · exact .refl c

/-! ## Changes of one entry -/

/-- A change that keeps links, descriptor and role keeps the wiring. -/
lemma Wired.setConn {s : Net} {free act : List ℕ} (h : Wired s free act) (e : ℕ) (c : Conn)
    (hnext : c.next = (s.conns e).next) : Wired (s.setConn e c) free act := by
  have hlinks : (s.setConn e c).links = s.links := by
    ext1 i
    by_cases hi : i = e
    · subst hi
      simp [Net.links, Net.setConn, hnext]
    · simp [Net.links, Net.setConn, Function.update_of_ne hi]
  exact ⟨by rw [hlinks]; exact h.freeList, by rw [hlinks]; exact h.actList, h.parts, h.nodup,
    h.inUse, h.idle⟩

lemma setConn_same {s : Net} {e : ℕ} {c : Conn} (hfd : c.connFd = (s.conns e).connFd)
    (hlisten : c.isListen = (s.conns e).isListen) (i : ℕ) :
    ((s.setConn e c).conns i).connFd = (s.conns i).connFd ∧
      ((s.setConn e c).conns i).isListen = (s.conns i).isListen := by
  by_cases hi : i = e
  · subst hi
    simp [Net.setConn, hfd, hlisten]
  · simp [Net.setConn, Function.update_of_ne hi]

/-- The descriptors depend on the connections only through descriptor and role. -/
lemma Fds.congr {s s' : Net} {extra : Option ℤ} (h : Fds s extra) (htaken : s'.taken = s.taken)
    (hsock : s'.sockFd = s.sockFd) (hclients : s'.kernel.clients = s.kernel.clients)
    (hconns : ∀ e ∈ s.taken, (s'.conns e).connFd = (s.conns e).connFd ∧
      (s'.conns e).isListen = (s.conns e).isListen)
    (hinterest : ∀ fd m e, s'.kernel.interest fd = some (m, e) →
      e ∈ s.taken ∧ (s.conns e).connFd = fd) : Fds s' extra := by
  refine ⟨?_, ?_, ?_, ?_, ?_, ?_, ?_⟩
  · intro e he hl
    rw [htaken] at he
    rw [(hconns e he).1, hclients]
    exact h.client e he ((hconns e he).2 ▸ hl)
  · intro e he hl
    rw [htaken] at he
    rw [(hconns e he).1, hsock]
    exact h.listen e he ((hconns e he).2 ▸ hl)
  · rw [hsock, hclients]
    exact h.server
  · intro fd hfd
    rw [hclients] at hfd
    rcases h.held fd hfd with hx | ⟨e, he, hl, hfd⟩
    · exact Or.inl hx
    · refine Or.inr ⟨e, htaken ▸ he, ?_, ?_⟩
      · rw [(hconns e he).2, hl]
      · rw [(hconns e he).1, hfd]
  · intro fd hfd
    obtain ⟨hin, hne⟩ := h.extra fd hfd
    refine ⟨hclients ▸ hin, fun e he => ?_⟩
    rw [htaken] at he
    rw [(hconns e he).1]
    exact hne e he
  · intro e he e' he' heq
    rw [htaken] at he he'
    rw [(hconns e he).1, (hconns e' he').1] at heq
    exact h.inj e he e' he' heq
  · intro fd m e hfd
    obtain ⟨he, hc⟩ := hinterest fd m e hfd
    exact ⟨htaken ▸ he, by rw [(hconns e he).1, hc]⟩

lemma Fds.setConn {s : Net} {extra : Option ℤ} (h : Fds s extra) {e : ℕ} {c : Conn}
    (hfd : c.connFd = (s.conns e).connFd) (hlisten : c.isListen = (s.conns e).isListen) :
    Fds (s.setConn e c) extra :=
  h.congr rfl rfl rfl (fun i _ => setConn_same hfd hlisten i) h.registered

lemma Fds.withKernel {s : Net} {extra : Option ℤ} (h : Fds s extra) {k : Kernel}
    (hclients : k.clients = s.kernel.clients)
    (hinterest : ∀ fd m e, k.interest fd = some (m, e) → e ∈ s.taken ∧ (s.conns e).connFd = fd) :
    Fds { s with kernel := k } extra :=
  h.congr rfl rfl hclients (fun _ _ => ⟨rfl, rfl⟩) hinterest

/-- A registration that succeeds is the only one that changes. -/
lemma interest_epollSet {k k' : Kernel} {add ok : Bool} {fd x : ℤ} {m m' : Mask} {e i : ℕ}
    (hk : k.epollSet add fd m e ok = some k') (h : k'.interest x = some (m', i)) :
    k.interest x = some (m', i) ∨ (x = fd ∧ i = e ∧ m' = m) := by
  unfold Kernel.epollSet at hk
  split_ifs at hk
  cases hk
  simp only [Function.update_apply] at h
  split_ifs at h with hx
  · cases h
    exact Or.inr ⟨hx, rfl, rfl⟩
  · exact Or.inl h

lemma clients_epollSet {k k' : Kernel} {add ok : Bool} {fd : ℤ} {m : Mask} {e : ℕ}
    (hk : k.epollSet add fd m e ok = some k') : k'.clients = k.clients := by
  unfold Kernel.epollSet at hk
  split_ifs at hk
  cases hk
  rfl

/-- `close` drops one registration and leaves the others. -/
lemma interest_closeFd {k : Kernel} {fd x : ℤ} {p : Mask × ℕ}
    (h : (k.closeFd fd).interest x = some p) : x ≠ fd ∧ k.interest x = some p := by
  simp only [Kernel.closeFd, Function.update_apply] at h
  split_ifs at h with hx
  exact ⟨hx, h⟩

/-- A registration of an entry in use under its own descriptor. -/
lemma Fds.register {s : Net} {extra : Option ℤ} (h : Fds s extra) {e : ℕ} (he : e ∈ s.taken)
    {add ok : Bool} {m : Mask} {k : Kernel}
    (hk : s.kernel.epollSet add (s.conns e).connFd m e ok = some k) :
    Fds { s with kernel := k } extra := by
  refine h.withKernel (clients_epollSet hk) (fun fd m' i hfd => ?_)
  rcases interest_epollSet hk hfd with hfd | ⟨rfl, rfl, -⟩
  · exact h.registered fd m' i hfd
  · exact ⟨he, rfl⟩

lemma Wired.withKernel {s : Net} {free act : List ℕ} (h : Wired s free act) (k : Kernel) :
    Wired { s with kernel := k } free act :=
  ⟨h.freeList, h.actList, h.parts, h.nodup, h.inUse, h.idle⟩

lemma Wired.withTrace {s : Net} {free act : List ℕ} (h : Wired s free act) (t : Trace) :
    Wired { s with trace := t } free act :=
  ⟨h.freeList, h.actList, h.parts, h.nodup, h.inUse, h.idle⟩

lemma Fds.withTrace {s : Net} {extra : Option ℤ} (h : Fds s extra) (t : Trace) :
    Fds { s with trace := t } extra :=
  h.congr rfl rfl rfl (fun _ _ => ⟨rfl, rfl⟩) h.registered

lemma addEvent_wired {s s' : Net} {free act : List ℕ} {extra : Option ℤ} {e : ℕ} {m : Mask}
    {hd : Handler} {ok : Bool} (hw : Wired s free act) (hf : Fds s extra) (he : e ∈ s.taken)
    (h : addEvent s e m hd ok = some s') : Wired s' free act ∧ Fds s' extra := by
  unfold addEvent at h
  simp only at h
  split at h
  · cases h
  · rename_i k hk
    cases h
    refine ⟨(hw.setConn e ((s.conns e).armed m hd) rfl).withKernel k, ?_⟩
    exact (hf.register he hk).setConn rfl rfl

lemma clients_epollDrop (k : Kernel) (fd : ℤ) (left : Mask) (e : ℕ) (ok : Bool) :
    (k.epollDrop fd left e ok).clients = k.clients := by
  unfold Kernel.epollDrop
  split_ifs
  · rfl
  · rfl
  · cases hk : k.epollSet false fd left e ok with
    | none => rfl
    | some k' => exact clients_epollSet hk

/-- Dropping events leaves each registration as it was, or reduced to `left`. -/
lemma interest_epollDrop {k : Kernel} {fd x : ℤ} {left m : Mask} {e i : ℕ} {ok : Bool}
    (h : (k.epollDrop fd left e ok).interest x = some (m, i)) :
    k.interest x = some (m, i) ∨ (x = fd ∧ i = e ∧ m = left) := by
  unfold Kernel.epollDrop at h
  split_ifs at h
  · simp only [Function.update_apply] at h
    split_ifs at h
    exact Or.inl h
  · exact Or.inl h
  · cases hk : k.epollSet false fd left e ok with
    | none => exact Or.inl (by simpa [hk] using h)
    | some k' => exact interest_epollSet hk (by simpa [hk] using h)

lemma delEvent_wired {s : Net} {free act : List ℕ} {extra : Option ℤ} {e : ℕ} (m : Mask)
    (ok : Bool) (hw : Wired s free act) (hf : Fds s extra) (he : e ∈ s.taken) :
    Wired (delEvent s e m ok) free act ∧ Fds (delEvent s e m ok) extra := by
  unfold delEvent
  by_cases hnone : (s.conns e).events = .none
  · rw [if_pos hnone]
    exact ⟨hw, hf⟩
  · rw [if_neg hnone]
    refine ⟨(hw.setConn e { s.conns e with events := (s.conns e).events.diff m } rfl).withKernel _,
      ?_⟩
    have hsame (i : ℕ) := setConn_same (s := s) (e := e)
      (c := { s.conns e with events := (s.conns e).events.diff m }) rfl rfl i
    refine hf.congr rfl rfl (clients_epollDrop ..) (fun i _ => hsame i) ?_
    intro fd m' i hfd
    rcases interest_epollDrop hfd with hfd | ⟨rfl, rfl, -⟩
    · exact hf.registered fd m' i hfd
    · exact ⟨he, rfl⟩

/-- `tcp_free_connection` on an entry in use that is not in the rest of the batch. -/
lemma tcpFreeConnection_wired {s : Net} {free act : List ℕ} {e : ℕ} (hw : Wired s free act)
    (he : e ∈ s.taken) (hact : e ∉ act) : Wired (tcpFreeConnection s e) (e :: free) act := by
  have hlinks (i : ℕ) (hi : i ≠ e) : (tcpFreeConnection s e).links i = s.links i := by
    simp [Net.links, tcpFreeConnection, Function.update_of_ne hi]
  refine ⟨?_, ?_, ?_, hw.nodup, ?_, hw.idle⟩
  · refine hw.freeList.push (hw.not_free he) ?_ hlinks
    simp [Net.links, tcpFreeConnection]
  · refine hw.actList.congr (fun i hi => hlinks i ?_)
    rintro rfl
    exact hact hi
  · have hback : (free ++ e :: s.taken.erase e).Perm (free ++ s.taken) :=
      (List.perm_cons_erase he).symm.append_left free
    exact (List.perm_middle.symm.trans hback).trans hw.parts
  · intro i hi
    refine (List.mem_erase_of_ne ?_).mpr (hw.inUse i hi)
    rintro rfl
    exact hact hi

lemma mem_erase_taken {s : Net} {free act : List ℕ} (hw : Wired s free act) {e i : ℕ} :
    i ∈ s.taken.erase e ↔ i ≠ e ∧ i ∈ s.taken :=
  (List.nodup_append.mp hw.nodup_parts).2.1.mem_erase_iff

/-- Closing the descriptor of an entry in use and giving the entry back. -/
lemma close_fds {s : Net} {free act : List ℕ} {e : ℕ} (hw : Wired s free act) (hf : Fds s none)
    (he : e ∈ s.taken) :
    Fds (tcpFreeConnection { s with kernel := s.kernel.closeFd (s.conns e).connFd } e) none := by
  have hconn (i : ℕ) (hi : i ≠ e) : (tcpFreeConnection
      { s with kernel := s.kernel.closeFd (s.conns e).connFd } e).conns i = s.conns i := by
    simp [tcpFreeConnection, Function.update_of_ne hi]
  have hmem {i : ℕ} (hi : i ∈ s.taken.erase e) : i ≠ e ∧ i ∈ s.taken :=
    (mem_erase_taken hw).mp hi
  refine ⟨?_, ?_, ?_, ?_, by simp, ?_, ?_⟩
  · intro i hi hl
    obtain ⟨hne, hin⟩ := hmem hi
    rw [hconn i hne] at hl ⊢
    refine Finset.mem_erase.mpr ⟨fun heq => hne ?_, hf.client i hin hl⟩
    exact hf.inj i hin e he heq
  · intro i hi hl
    obtain ⟨hne, hin⟩ := hmem hi
    rw [hconn i hne] at hl ⊢
    exact hf.listen i hin hl
  · exact fun hin => hf.server (Finset.mem_of_mem_erase hin)
  · intro fd hfd
    obtain ⟨hne, hin⟩ := Finset.mem_erase.mp hfd
    rcases hf.held fd hin with hx | ⟨i, hi, hl, rfl⟩
    · cases hx
    · have hie : i ≠ e := by
        rintro rfl
        exact hne rfl
      refine Or.inr ⟨i, (mem_erase_taken hw).mpr ⟨hie, hi⟩, ?_⟩
      rw [hconn i hie]
      exact ⟨hl, rfl⟩
  · intro i hi j hj heq
    obtain ⟨hie, hi⟩ := hmem hi
    obtain ⟨hje, hj⟩ := hmem hj
    rw [hconn i hie, hconn j hje] at heq
    exact hf.inj i hi j hj heq
  · intro fd m i hfd
    obtain ⟨hother, hfd⟩ := interest_closeFd hfd
    obtain ⟨hi, hc⟩ := hf.registered fd m i hfd
    have hie : i ≠ e := by
      rintro rfl
      exact hother hc.symm
    exact ⟨(mem_erase_taken hw).mpr ⟨hie, hi⟩, by rw [hconn i hie]; exact hc⟩

/-! ## Accepting a connection -/

/-- A descriptor that `accept` has just returned. -/
lemma Fds.opened {s : Net} (hf : Fds s none) {fd : ℤ} (hnew : fd ∉ s.kernel.clients)
    (hsock : fd ≠ s.sockFd) :
    Fds { s with kernel := { s.kernel with clients := insert fd s.kernel.clients } } (some fd) := by
  refine ⟨?_, hf.listen, ?_, ?_, ?_, hf.inj, hf.registered⟩
  · exact fun e he hl => Finset.mem_insert_of_mem (hf.client e he hl)
  · simp only [Finset.mem_insert, not_or]
    exact ⟨hsock.symm, hf.server⟩
  · intro x hx
    rcases Finset.mem_insert.mp hx with rfl | hx
    · exact Or.inl rfl
    · rcases hf.held x hx with h | h
      · cases h
      · exact Or.inr h
  · rintro x hx
    cases hx
    refine ⟨Finset.mem_insert_self _ _, fun e he heq => ?_⟩
    cases hl : (s.conns e).isListen with
    | false => exact hnew (heq ▸ hf.client e he hl)
    | true => exact hsock (heq ▸ hf.listen e he hl)

/-- The descriptor is closed again. -/
lemma Fds.closed {s : Net} {fd : ℤ} (hf : Fds s (some fd)) :
    Fds { s with kernel := s.kernel.closeFd fd } none := by
  obtain ⟨-, hne⟩ := hf.extra fd rfl
  refine ⟨?_, hf.listen, ?_, ?_, by simp, hf.inj, ?_⟩
  · exact fun e he hl => Finset.mem_erase.mpr ⟨hne e he, hf.client e he hl⟩
  · exact fun hin => hf.server (Finset.mem_of_mem_erase hin)
  · intro x hx
    obtain ⟨hxne, hx⟩ := Finset.mem_erase.mp hx
    rcases hf.held x hx with h | h
    · exact absurd (Option.some.inj h).symm hxne
    · exact Or.inr h
  · intro x m e hx
    exact hf.registered x m e (interest_closeFd hx).2

/-- `tcp_get_connection` takes the head of the free list for the descriptor. -/
lemma tcpGetConnection_wired {s s' : Net} {free act : List ℕ} {fd : ℤ} {ok : Bool} {e : ℕ}
    (hw : Wired s free act) (hf : Fds s (some fd)) (h : tcpGetConnection s fd ok = some (e, s')) :
    ∃ free', free = e :: free' ∧ Wired s' free' act ∧ Fds s' none ∧ e ∉ act ∧ e ∈ s'.taken ∧
      (s'.conns e).connFd = fd := by
  unfold tcpGetConnection at h
  split at h
  · cases h
  rename_i e' hhead
  split_ifs at h
  cases h
  have hfree := hw.freeList
  rw [hhead] at hfree
  obtain ⟨free', rfl, hrest⟩ := hfree.head_some
  have hnodup := hw.nodup_parts
  rw [List.cons_append, List.nodup_cons, List.mem_append, not_or] at hnodup
  obtain ⟨⟨hfree', htaken⟩, -⟩ := hnodup
  have hact : e ∉ act := fun hin => htaken (hw.inUse e hin)
  have hne {i : ℕ} (hi : i ∈ s.taken) : i ≠ e := by
    rintro rfl
    exact htaken hi
  obtain ⟨hopen, hother⟩ := hf.extra fd rfl
  refine ⟨free', rfl, ⟨?_, ?_, ?_, hw.nodup, ?_, hw.idle⟩, ⟨?_, ?_, hf.server, ?_, by simp, ?_, ?_⟩,
    hact, by simp, by simp [newConn]⟩
  · refine hrest.congr (fun i hi => ?_)
    have hie : i ≠ e := by
      rintro rfl
      exact hfree' hi
    simp [Net.links, Function.update_of_ne hie]
  · refine hw.actList.congr (fun i hi => ?_)
    simp [Net.links, Function.update_of_ne (hne (hw.inUse i hi))]
  · exact List.perm_middle.trans hw.parts
  · exact fun i hi => List.mem_cons_of_mem _ (hw.inUse i hi)
  · intro i hi hl
    rcases List.mem_cons.mp hi with rfl | hi
    · simpa [newConn] using hopen
    · simp only [Function.update_of_ne (hne hi)] at hl ⊢
      exact hf.client i hi hl
  · intro i hi hl
    rcases List.mem_cons.mp hi with rfl | hi
    · simp [newConn] at hl
    · simp only [Function.update_of_ne (hne hi)] at hl ⊢
      exact hf.listen i hi hl
  · intro x hx
    rcases hf.held x hx with hx | ⟨i, hi, hl, rfl⟩
    · cases hx
      exact Or.inr ⟨e, by simp, by simp [newConn]⟩
    · exact Or.inr ⟨i, by simp [hi], by simp [Function.update_of_ne (hne hi), hl]⟩
  · intro i hi j hj heq
    rcases List.mem_cons.mp hi with rfl | hin <;> rcases List.mem_cons.mp hj with hje | hjn
    · exact hje.symm
    · simp only [Function.update_self, Function.update_of_ne (hne hjn), newConn] at heq
      exact absurd heq.symm (hother j hjn)
    · simp only [hje, Function.update_self, Function.update_of_ne (hne hin), newConn] at heq
      exact absurd heq (hother i hin)
    · simp only [Function.update_of_ne (hne hin), Function.update_of_ne (hne hjn)] at heq
      exact hf.inj i hin j hjn heq
  · intro x m i hx
    obtain ⟨hi, hc⟩ := hf.registered x m i hx
    exact ⟨List.mem_cons_of_mem _ hi, by simp [Function.update_of_ne (hne hi), hc]⟩

/-- The server with a descriptor that `accept` has just returned. -/
def Net.opened (s : Net) (fd : ℤ) : Net :=
  { s with kernel := { s.kernel with clients := insert fd s.kernel.clients } }

/-- **All that `tcp_server_accept` can do**: nothing, close the new descriptor
again, or take a connection for it, which is registered or given back. -/
lemma tcpServerAccept_cases (s : Net) (o : Outcomes) :
    tcpServerAccept s o = s ∨ ∃ fd : ℤ, fd ∉ s.kernel.clients ∧ fd ≠ s.sockFd ∧
      (tcpServerAccept s o = { s.opened fd with kernel := (s.opened fd).kernel.closeFd fd } ∨
        ∃ e s₂, tcpGetConnection (s.opened fd) fd o.connPool = some (e, s₂) ∧
          (addEvent s₂ e .readOnly .recv o.ctlAdd = some (tcpServerAccept s o) ∨
            tcpServerAccept s o = tcpFreeConnection
              { s₂ with kernel := s₂.kernel.closeFd (s₂.conns e).connFd } e)) := by
  unfold tcpServerAccept
  split
  · exact Or.inl rfl
  rename_i fd _
  by_cases hopen : (fd : ℤ) ∈ s.kernel.clients ∨ (fd : ℤ) = s.sockFd
  · rw [if_pos hopen]
    exact Or.inl rfl
  rw [if_neg hopen]
  obtain ⟨hnew, hsock⟩ := not_or.mp hopen
  refine Or.inr ⟨fd, hnew, hsock, ?_⟩
  cases o.nonblock with
  | false => exact Or.inl rfl
  | true =>
    simp only [if_true]
    split
    · exact Or.inl rfl
    rename_i e s₂ hget
    refine Or.inr ⟨e, s₂, hget, ?_⟩
    split
    · rename_i s₃ hadd
      exact Or.inl hadd
    · exact Or.inr rfl

/-- Whatever fails, `tcp_server_accept` gives back what it took. -/
lemma tcpServerAccept_wired {s : Net} {free act : List ℕ} (hw : Wired s free act)
    (hf : Fds s none) (o : Outcomes) :
    ∃ free', Wired (tcpServerAccept s o) free' act ∧ Fds (tcpServerAccept s o) none := by
  rcases tcpServerAccept_cases s o with heq | ⟨fd, hnew, hsock, hcases⟩
  · rw [heq]
    exact ⟨free, hw, hf⟩
  have hf₁ : Fds (s.opened fd) (some fd) := hf.opened hnew hsock
  have hw₁ : Wired (s.opened fd) free act := hw.withKernel _
  rcases hcases with heq | ⟨e, s₂, hget, hcases⟩
  · rw [heq]
    exact ⟨free, hw₁.withKernel _, hf₁.closed⟩
  obtain ⟨free', -, hw₂, hf₂, hact, he, -⟩ := tcpGetConnection_wired hw₁ hf₁ hget
  rcases hcases with hadd | heq
  · exact ⟨free', addEvent_wired hw₂ hf₂ he hadd⟩
  · rw [heq]
    exact ⟨e :: free', tcpFreeConnection_wired (hw₂.withKernel _) he hact, close_fds hw₂ hf₂ he⟩

/-! ## One round of the loop -/

lemma Wired.crash {s : Net} {free act : List ℕ} (h : Wired s free act) :
    Wired { s with crashed := true } free act :=
  ⟨h.freeList, h.actList, h.parts, h.nodup, h.inUse, h.idle⟩

lemma Fds.crash {s : Net} (h : Fds s none) : Fds { s with crashed := true } none :=
  h.congr rfl rfl rfl (fun _ _ => ⟨rfl, rfl⟩) h.registered

lemma callHandler_wired {s : Net} {free act : List ℕ} (hw : Wired s free act) (hf : Fds s none)
    (e : ℕ) (h : Option Handler) (ws : List WriteResult) (o : Outcomes) :
    ∃ free', Wired (callHandler s e h ws o) free' act ∧ Fds (callHandler s e h ws o) none := by
  unfold callHandler
  split
  · exact ⟨free, hw.crash, hf.crash⟩
  · exact tcpServerAccept_wired hw hf o
  · have hframe := tcpServerRecv_frame s.bufSize e (s.conns e) s.trace o
    exact ⟨free, (hw.setConn e _ hframe.next).withTrace _,
      (hf.setConn hframe.connFd hframe.isListen).withTrace _⟩
  · have hframe := tcpServerSend_frame (s.conns e) ws
    exact ⟨free, hw.setConn e _ hframe.next, hf.setConn hframe.connFd hframe.isListen⟩

lemma readPart_wired {s : Net} {free act : List ℕ} (hw : Wired s free act) (hf : Fds s none)
    (e : ℕ) (o : Outcomes) :
    ∃ free', Wired (readPart s e o) free' act ∧ Fds (readPart s e o) none := by
  unfold readPart
  split_ifs
  · exact callHandler_wired hw hf e _ _ o
  · exact ⟨free, hw, hf⟩

lemma writePart_wired {s : Net} {free act : List ℕ} (hw : Wired s free act) (hf : Fds s none)
    (e : ℕ) (o : Outcomes) :
    ∃ free', Wired (writePart s e o) free' act ∧ Fds (writePart s e o) none := by
  unfold writePart
  split_ifs
  · exact callHandler_wired hw hf e _ _ o
  · exact ⟨free, hw, hf⟩

lemma deadPart_wired {s : Net} {free act : List ℕ} {e : ℕ} (hw : Wired s free act)
    (hf : Fds s none) (he : e ∈ s.taken) (o : Outcomes) :
    Wired (deadPart s e o) free act ∧ Fds (deadPart s e o) none := by
  unfold deadPart
  split_ifs
  · exact ⟨hw, hf⟩
  · obtain ⟨hw₁, hf₁⟩ := delEvent_wired (s.conns e).deadEvents o.ctlDel hw hf he
    exact ⟨hw₁.setConn e _ rfl, hf₁.setConn rfl rfl⟩

lemma addPart_wired {s : Net} {free act : List ℕ} {e : ℕ} (hw : Wired s free act)
    (hf : Fds s none) (he : e ∈ s.taken) (o : Outcomes) :
    Wired (addPart s e o) free act ∧ Fds (addPart s e o) none := by
  unfold addPart
  split_ifs
  · exact ⟨hw, hf⟩
  · cases hadd : addEvent s e (s.conns e).addEvents .send o.ctlWrite with
    | none => exact ⟨hw.setConn e _ rfl, hf.setConn rfl rfl⟩
    | some s₁ =>
      obtain ⟨hw₁, hf₁⟩ := addEvent_wired hw hf he hadd
      exact ⟨hw₁.setConn e _ rfl, hf₁.setConn rfl rfl⟩

lemma Wired.advance {s : Net} {free act : List ℕ} {e : ℕ} (h : Wired s free (e :: act)) :
    Wired (s.advanceTo (s.conns e).next) free act := by
  refine ⟨h.freeList, h.actList.2, h.parts, (List.nodup_cons.mp h.nodup).2,
    fun i hi => h.inUse i (List.mem_cons_of_mem _ hi), fun hnone => ?_⟩
  exact if_pos hnone

lemma Fds.advance {s : Net} (h : Fds s none) (next : Option ℕ) : Fds (s.advanceTo next) none :=
  h.congr rfl rfl rfl (fun _ _ => ⟨rfl, rfl⟩) h.registered

lemma closePart_wired {s : Net} {free act : List ℕ} {e : ℕ} (hw : Wired s free (e :: act))
    (hf : Fds s none) (o : Outcomes) :
    ∃ free', Wired (closePart s e o) free' act ∧ Fds (closePart s e o) none := by
  have he : e ∈ s.taken := hw.inUse e (by simp)
  unfold closePart
  split_ifs
  · have hact : e ∉ act := (List.nodup_cons.mp hw.nodup).1
    exact ⟨e :: free, tcpFreeConnection_wired (hw.advance.withKernel _) he hact,
      (close_fds hw hf he).advance _⟩
  · obtain ⟨hw₁, hf₁⟩ := addPart_wired hw hf he o
    exact ⟨free, hw₁.advance, hf₁.advance _⟩

/-- **One round keeps the wiring**, and takes one connection off the batch. -/
theorem dispatch_wired {s : Net} {free act : List ℕ} {e : ℕ} (hw : Wired s free (e :: act))
    (hf : Fds s none) (o : Outcomes) :
    ∃ free' act', Wired (dispatch s e o) free' act' ∧ Fds (dispatch s e o) none ∧
      ((dispatch s e o).crashed = false → act' = act) := by
  unfold dispatch
  obtain ⟨free₁, hw₁, hf₁⟩ := readPart_wired hw hf e o
  cases hc₁ : (readPart s e o).crashed with
  | true => exact ⟨free₁, e :: act, by simpa [hc₁] using hw₁, by simpa [hc₁] using hf₁, by simp [hc₁]⟩
  | false =>
    obtain ⟨free₂, hw₂, hf₂⟩ := writePart_wired hw₁ hf₁ e o
    cases hc₂ : (writePart (readPart s e o) e o).crashed with
    | true =>
      exact ⟨free₂, e :: act, by simpa [hc₁, hc₂] using hw₂, by simpa [hc₁, hc₂] using hf₂,
        by simp [hc₁, hc₂]⟩
    | false =>
      obtain ⟨hw₃, hf₃⟩ := deadPart_wired hw₂ hf₂ (hw₂.inUse e (by simp)) o
      obtain ⟨free₄, hw₄, hf₄⟩ := closePart_wired hw₃ hf₃ o
      exact ⟨free₄, act, by simpa [hc₁, hc₂] using hw₄, by simpa [hc₁, hc₂] using hf₄, fun _ => rfl⟩

/-! ## A batch -/

/-- What `epoll_polling` changes: the links and active events of the connections
it reports, and the head of their list. -/
structure Polled (s s' : Net) (entries : List ℕ) : Prop where
  rest : s' = { s with conns := s'.conns, activeConns := s'.activeConns }
  conn : ∀ e, s'.conns e =
    { s.conns e with activeEvents := (s'.conns e).activeEvents, next := (s'.conns e).next }
  other : ∀ e, e ∉ entries → s'.conns e = s.conns e

lemma foldl_pollOne (reports : List (ℕ × Mask)) (s : Net) :
    Polled s (reports.foldl pollOne s) (reports.map Prod.fst) := by
  induction reports generalizing s with
  | nil => exact ⟨rfl, fun _ => rfl, fun _ _ => rfl⟩
  | cons p reports ih =>
    have hrest := ih (pollOne s p)
    have hone (e : ℕ) (he : e ≠ p.1) : (pollOne s p).conns e = s.conns e := by
      simp [pollOne, Net.setConn, Function.update_of_ne he]
    refine ⟨?_, fun e => ?_, fun e he => ?_⟩
    · rw [List.foldl_cons, hrest.rest]
      rfl
    · rw [List.foldl_cons, hrest.conn e]
      by_cases he : e = p.1
      · subst he
        simp [pollOne, Net.setConn]
      · rw [hone e he]
    · rw [List.map_cons, List.mem_cons, not_or] at he
      rw [List.foldl_cons, hrest.other e he.2, hone e he.1]

/-- The batch hangs on the links in reverse order. -/
lemma poll_wired {s : Net} {free : List ℕ} (hw : Wired s free []) (hf : Fds s none)
    {maxEvents : ℕ} {reports : List (ℕ × Mask)} (hreported : Reported maxEvents s.kernel reports) :
    Wired (poll s reports) free (reports.map Prod.fst).reverse ∧ Fds (poll s reports) none := by
  have hpolled := foldl_pollOne reports s
  have hrest := hpolled.rest
  have htaken : ∀ p ∈ reports, p.1 ∈ s.taken := by
    intro p hp
    obtain ⟨fd, m, hreg, -⟩ := hreported.registered p hp
    exact (hf.registered fd m p.1 hreg).1
  have hchain : Chain (reports.foldl pollOne s).links (reports.foldl pollOne s).activeConns
      ((reports.map Prod.fst).reverse ++ []) := by
    refine chain_foldl_push Net.links Net.activeConns Prod.fst pollOne (fun _ _ => rfl)
      (fun s b => by simp [Net.links, pollOne, Net.setConn]) (fun s b a ha => ?_) reports ?_
      hreported.once (by simp)
    · simp [Net.links, pollOne, Net.setConn, Function.update_of_ne ha]
    · rw [hw.idle hw.actList]
      rfl
  rw [List.append_nil] at hchain
  unfold poll
  constructor
  · refine ⟨?_, hchain, ?_, ?_, ?_, fun h => h⟩
    · have hpool : (reports.foldl pollOne s).connectionPool = s.connectionPool := by rw [hrest]
      rw [hpool]
      refine hw.freeList.congr (fun e he => ?_)
      have hout : e ∉ reports.map Prod.fst := by
        intro hin
        obtain ⟨p, hp, rfl⟩ := List.mem_map.mp hin
        exact hw.not_free (htaken p hp) he
      exact congrArg Conn.next (hpolled.other e hout)
    · have hparts := hw.parts
      rw [hrest]
      exact hparts
    · exact List.nodup_reverse.mpr hreported.once
    · intro e he
      obtain ⟨p, hp, rfl⟩ := List.mem_map.mp (List.mem_reverse.mp he)
      rw [hrest]
      exact htaken p hp
  · have hregistered := hf.registered
    refine hf.congr (by rw [hrest]) (by rw [hrest]) (by rw [hrest]) (fun e _ => ?_) ?_
    · rw [hpolled.conn e]
      exact ⟨rfl, rfl⟩
    · rw [hrest]
      exact hregistered

/-- The cursor is at the head of the rest of the batch. -/
lemma Wired.at_cursor {s : Net} {free act : List ℕ} {e : ℕ} (h : Wired s free act)
    (hcur : s.cursor = some e) : ∃ rest, act = e :: rest := by
  have hact := h.actList
  rw [hcur] at hact
  obtain ⟨rest, hrest, -⟩ := hact.head_some
  exact ⟨rest, hrest⟩

/-- The server is wired. -/
def Conserving (s : Net) : Prop := ∃ free act, Wired s free act ∧ Fds s none

lemma Conserving.taken {s : Net} {e : ℕ} (h : Conserving s) (hcur : s.cursor = some e) :
    e ∈ s.taken := by
  obtain ⟨free, act, hw, -⟩ := h
  obtain ⟨rest, rfl⟩ := hw.at_cursor hcur
  exact hw.inUse e (by simp)

lemma netStep_dispatch {s : Net} {e : ℕ} (hc : s.crashed = false) (hcur : s.cursor = some e)
    (o : Outcomes) : netStep s (.dispatch o) = dispatch s e o := by
  simp [netStep, hc, hcur]

theorem netStep_conserving {s : Net} (h : Conserving s) (i : Input) (hi : PollsValid s i) :
    Conserving (netStep s i) := by
  obtain ⟨free, act, hw, hf⟩ := h
  unfold netStep
  cases s.crashed with
  | true => exact ⟨free, act, hw, hf⟩
  | false =>
    cases i with
    | poll reports =>
      cases hcur : s.cursor with
      | none =>
        have hact := hw.actList
        rw [hcur] at hact
        obtain rfl := hact.head_none
        exact ⟨free, _, poll_wired hw hf hi⟩
      | some e => exact ⟨free, act, hw, hf⟩
    | dispatch o =>
      cases hcur : s.cursor with
      | none => exact ⟨free, act, hw, hf⟩
      | some e =>
        obtain ⟨rest, rfl⟩ := hw.at_cursor hcur
        obtain ⟨free', act', hw', hf', -⟩ := dispatch_wired hw hf o
        exact ⟨free', act', hw', hf'⟩

/-! ## The start -/

lemma connectionPoolInit_chain (n : ℕ) (garbage : ℕ → Conn) (k m : ℕ) (hm : k + m + 1 = n) :
    Chain (fun e => (connectionPoolInit n garbage e).next) (some k) (List.range' k (m + 1)) := by
  induction m generalizing k with
  | zero =>
    refine ⟨rfl, ?_⟩
    simp only [connectionPoolInit]
    rw [if_neg (by omega)]
    rfl
  | succ m ih =>
    refine ⟨rfl, ?_⟩
    simp only [connectionPoolInit]
    rw [if_pos (by omega)]
    exact ih (k + 1) (by omega)

/-- The connection of the listening socket. -/
def listenConn (sockFd : ℤ) : Conn :=
  { newConn sockFd 0 with
    isListen := true, events := .readOnly, readEventHandler := some .accept }

lemma initNetworkMod_eq (n : ℕ) (sockFd : ℤ) (bufSize : ℕ) (garbage : ℕ → Conn) :
    initNetworkMod n sockFd bufSize garbage =
      { serverInit n sockFd bufSize garbage with
        connectionPool := (connectionPoolInit n garbage 0).next
        conns := Function.update (connectionPoolInit n garbage) 0 (listenConn sockFd)
        kernel := ⟨∅, Function.update (fun _ => none) sockFd (some (.readOnly, 0))⟩
        trace := ⟨1, {0}, [], [], false⟩
        taken := [0] } := by
  simp [initNetworkMod, tcpGetConnection, serverInit, addEvent, Kernel.epollSet, Net.setConn,
    Conn.armed, newConn, listenConn, Mask.union, Mask.none, Mask.readOnly, Trace.createPool]

lemma initNetworkMod_conserving {n : ℕ} (hn : 1 ≤ n) (sockFd : ℤ) (bufSize : ℕ)
    (garbage : ℕ → Conn) : Conserving (initNetworkMod n sockFd bufSize garbage) := by
  obtain ⟨m, rfl⟩ := Nat.exists_eq_add_of_le' hn
  rw [initNetworkMod_eq]
  refine ⟨List.range' 1 m, [], ⟨?_, rfl, ?_, by simp, by simp, fun _ => rfl⟩,
    ⟨by simp [listenConn], by simp [listenConn, newConn, serverInit], by simp, by simp, by simp, by simp, ?_⟩⟩
  · -- the listening socket takes the head of the list
    have hrest : Chain (fun e => (connectionPoolInit (m + 1) garbage e).next)
        (connectionPoolInit (m + 1) garbage 0).next (List.range' 1 m) :=
      (connectionPoolInit_chain (m + 1) garbage 0 m (by omega)).2
    refine hrest.congr (fun e he => ?_)
    have he0 : e ≠ 0 := by
      have := (List.mem_range'_1.mp he).1
      omega
    simp [Net.links, Function.update_of_ne he0]
  · have hrange : List.range (m + 1) = 0 :: List.range' 1 m := by
      rw [List.range_eq_range', List.range'_succ]
    simp only [serverInit]
    rw [hrange]
    exact List.perm_append_singleton 0 (List.range' 1 m)
  · intro fd mask e hfd
    simp only [Function.update_apply] at hfd
    split_ifs at hfd with hsame
    cases hfd
    exact ⟨by simp, by simp [listenConn, newConn, hsame]⟩

/-- The entries of the connection array are split into the free list and the
entries in use, and the open client descriptors are those of the client entries
in use, each held once. -/
structure Conserved (s : Net) : Prop where
  parts : ∃ free, Chain s.links s.connectionPool free ∧
    (free ++ s.taken).Perm (List.range s.count)
  clients : s.kernel.clients =
    ((s.taken.filter (fun e => !(s.conns e).isListen)).map (fun e => (s.conns e).connFd)).toFinset
  once : ((s.taken.filter (fun e => !(s.conns e).isListen)).map (fun e => (s.conns e).connFd)).Nodup

lemma Conserving.conserved {s : Net} (h : Conserving s) : Conserved s := by
  obtain ⟨free, act, hw, hf⟩ := h
  refine ⟨⟨free, hw.freeList, hw.parts⟩, ?_, ?_⟩
  · ext fd
    simp only [List.mem_toFinset, List.mem_map, List.mem_filter, Bool.not_eq_true']
    constructor
    · intro hfd
      rcases hf.held fd hfd with hx | ⟨e, he, hl, hfd⟩
      · cases hx
      · exact ⟨e, ⟨he, hl⟩, hfd⟩
    · rintro ⟨e, ⟨he, hl⟩, rfl⟩
      exact hf.client e he hl
  · refine List.Nodup.map_on ?_ ((List.nodup_append.mp hw.nodup_parts).2.1.filter _)
    intro e he e' he' heq
    exact hf.inj e (List.mem_of_mem_filter he) e' (List.mem_of_mem_filter he') heq

lemma netStep_of_crashed {s : Net} (h : s.crashed = true) (i : Input) : netStep s i = s := by
  simp [netStep, h]

/-- **Connections are conserved** in every run of the server, whatever fails. -/
theorem connections_conserved (n : ℕ) (hn : 2 ≤ n) (sockFd : ℤ) (bufSize : ℕ)
    (garbage : ℕ → Conn) (inputs : List Input)
    (hpolls : Along netStep PollsValid (initNetworkMod n sockFd bufSize garbage) inputs) :
    Conserved (inputs.foldl netStep (initNetworkMod n sockFd bufSize garbage)) := by
  have hinit := initNetworkMod_conserving (Nat.le_of_lt hn) sockFd bufSize garbage
  have hend : Conserving (inputs.foldl netStep (initNetworkMod n sockFd bufSize garbage)) :=
    invariant_foldl (I := Conserving) (fun _ i h hi => netStep_conserving h i hi) hinit hpolls
  exact hend.conserved

/-! ## What no step changes -/

/-- The number of connections and the listening socket are the same. -/
def Fixed (s s' : Net) : Prop := s'.count = s.count ∧ s'.sockFd = s.sockFd

lemma Fixed.trans {s₁ s₂ s₃ : Net} (h : Fixed s₁ s₂) (h' : Fixed s₂ s₃) : Fixed s₁ s₃ :=
  ⟨h'.1.trans h.1, h'.2.trans h.2⟩

lemma addEvent_fixed {s s' : Net} {e : ℕ} {m : Mask} {h : Handler} {ok : Bool}
    (hadd : addEvent s e m h ok = some s') : Fixed s s' := by
  unfold addEvent at hadd
  split at hadd
  · cases hadd
  · cases hadd
    exact ⟨rfl, rfl⟩

lemma tcpServerAccept_fixed (s : Net) (o : Outcomes) : Fixed s (tcpServerAccept s o) := by
  rcases tcpServerAccept_cases s o with heq | ⟨fd, -, -, heq | ⟨e, s₂, hget, hcases⟩⟩
  · rw [heq]
    exact ⟨rfl, rfl⟩
  · rw [heq]
    exact ⟨rfl, rfl⟩
  · have htook : Fixed s s₂ := by
      unfold tcpGetConnection at hget
      split at hget
      · cases hget
      · split_ifs at hget
        cases hget
        exact ⟨rfl, rfl⟩
    rcases hcases with hadd | heq
    · exact htook.trans (addEvent_fixed hadd)
    · rw [heq]
      exact htook

lemma callHandler_fixed (s : Net) (e : ℕ) (h : Option Handler) (ws : List WriteResult)
    (o : Outcomes) : Fixed s (callHandler s e h ws o) := by
  unfold callHandler
  split
  · exact ⟨rfl, rfl⟩
  · exact tcpServerAccept_fixed s o
  · exact ⟨rfl, rfl⟩
  · exact ⟨rfl, rfl⟩

lemma readPart_fixed (s : Net) (e : ℕ) (o : Outcomes) : Fixed s (readPart s e o) := by
  unfold readPart
  split_ifs
  · exact callHandler_fixed s e _ _ o
  · exact ⟨rfl, rfl⟩

lemma writePart_fixed (s : Net) (e : ℕ) (o : Outcomes) : Fixed s (writePart s e o) := by
  unfold writePart
  split_ifs
  · exact callHandler_fixed s e _ _ o
  · exact ⟨rfl, rfl⟩

lemma deadPart_fixed (s : Net) (e : ℕ) (o : Outcomes) : Fixed s (deadPart s e o) := by
  unfold deadPart delEvent
  split_ifs
  · exact ⟨rfl, rfl⟩
  · exact ⟨rfl, rfl⟩
  · exact ⟨rfl, rfl⟩

lemma addPart_fixed (s : Net) (e : ℕ) (o : Outcomes) : Fixed s (addPart s e o) := by
  unfold addPart
  split_ifs
  · exact ⟨rfl, rfl⟩
  · cases hadd : addEvent s e (s.conns e).addEvents .send o.ctlWrite with
    | none => exact ⟨rfl, rfl⟩
    | some s' =>
      have hfixed := addEvent_fixed hadd
      exact ⟨hfixed.1, hfixed.2⟩

lemma closePart_fixed (s : Net) (e : ℕ) (o : Outcomes) : Fixed s (closePart s e o) := by
  unfold closePart
  split_ifs
  · exact ⟨rfl, rfl⟩
  · have hfixed := addPart_fixed s e o
    exact ⟨hfixed.1, hfixed.2⟩

lemma netStep_fixed (s : Net) (i : Input) : Fixed s (netStep s i) := by
  unfold netStep
  split_ifs
  · exact ⟨rfl, rfl⟩
  · split
    · unfold poll
      rw [(foldl_pollOne _ s).rest]
      exact ⟨rfl, rfl⟩
    · rename_i o e _
      have hread := readPart_fixed s e o
      have hwrite := hread.trans (writePart_fixed _ e o)
      unfold dispatch
      simp only
      split_ifs
      · exact hread
      · exact hwrite
      · exact (hwrite.trans (deadPart_fixed _ e o)).trans (closePart_fixed _ e o)
    · exact ⟨rfl, rfl⟩

/-- The outcomes of a round in which `fd` is accepted, `data` is read and the
writes go as given, and nothing else fails. -/
def outcomes (fd : Option ℕ) (data : List UInt8) (readWrites writeWrites : List WriteResult) :
    Outcomes where
  accept := fd
  nonblock := true
  connPool := true
  ctlAdd := true
  initPool := true
  initMallocs := noFailures
  read := .bytes data
  chainAlloc := true
  readWrites := readWrites
  writeWrites := writeWrites
  ctlDel := true
  ctlWrite := true
  layout := .spaced

/-- A batch of one connection. -/
lemma reported_one {maxEvents : ℕ} {k : Kernel} {e : ℕ} {m : Mask} (fd : ℤ) (m' : Mask)
    (h : k.interest fd = some (m', e)) (hle : m.Le m') (hmax : 1 ≤ maxEvents) :
    Reported maxEvents k [(e, m)] := by
  refine ⟨hmax, by simp, fun p hp => ?_⟩
  obtain rfl := List.mem_singleton.mp hp
  exact ⟨fd, m', h, hle⟩

/-- A server of two connections that accepts one client, whose connection then
reads the end of the stream. -/
theorem connections_conserved_client :
    Conserved ([.poll [(0, .readOnly)], .dispatch (outcomes (some 5) [] [] []),
      .poll [(1, .readOnly)], .dispatch (outcomes none [] [] [])].foldl netStep
        (initNetworkMod 2 3 1024 (fun _ => newConn 0 0))) :=
  connections_conserved 2 (by decide) 3 1024 (fun _ => newConn 0 0) _
    ⟨reported_one 3 .readOnly rfl (by decide) (by decide), trivial,
      reported_one 5 .readOnly rfl (by decide) (by decide), trivial, trivial⟩

end Xpipe
