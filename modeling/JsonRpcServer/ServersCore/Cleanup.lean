import Mathlib.Tactic.Common
import Mathlib.Data.List.Basic

/-! # Cleaning the Descriptor Arrays

  Both listening loops mark the descriptors they drop with
  `INVALID_SOCKET` and then erase the marked entries from their
  `std::vector<autoClosedSocketFd>`.

  `erase` moves the entries behind the erased one down, one move assignment
  each, and destroys the last one, which closes its descriptor. Erasing the
  end iterator has no meaning and is reported as such.

  ## The two loops

  * `clientsListeningLoop` starts again at `begin()` after each `erase` and
    leaves when the vector is empty: it goes wrong as soon as one entry is
    not marked (`clientsCleanup_cleans_iff`).
  * `serversListeningLoop` leaves when the erased entry was the last one: it
    goes wrong when the last entry is not marked
    (`serversCleanup_cleans_iff`).
-/

namespace ServersCore

/-- `INVALID_SOCKET`. -/
def INVALID_SOCKET : Int := -1

/-- `autoClosedSocketFd`. `revents` is not here: `POLL` writes it before it
    is read again, and no part of the cleanup touches it. -/
structure AutoClosedSocketFd where
  fd : Int
  events : Nat
  deriving DecidableEq, Repr

/-- The entry is marked for removal. -/
def marked (e : AutoClosedSocketFd) : Bool := e.fd == INVALID_SOCKET

/-- An entry whose content has been moved away. -/
def AutoClosedSocketFd.movedFrom (e : AutoClosedSocketFd) : AutoClosedSocketFd :=
  { e with fd := INVALID_SOCKET }

/-- Move the entries `ys` down by one, over the slot `x` in front of them,
    and destroy the last slot. Also gives the descriptor that is closed. -/
def moveDown (x : AutoClosedSocketFd) : List AutoClosedSocketFd → List AutoClosedSocketFd × Int
  | [] => ([], x.fd)
  | y :: ys => (y :: (moveDown y.movedFrom ys).1, (moveDown y.movedFrom ys).2)

/-- `fds.erase(fds.begin() + k)`; `none` for the end iterator. -/
def erase : List AutoClosedSocketFd → Nat → Option (List AutoClosedSocketFd × Int)
  | [], _ => none
  | x :: xs, 0 => some (moveDown x xs)
  | x :: xs, k + 1 => (erase xs k).map fun r => (x :: r.1, r.2)

/-- `std::find` for a marked entry, as a distance from `begin()`. -/
def findInvalid (fds : List AutoClosedSocketFd) : Nat := fds.findIdx marked

/-- How a cleanup loop ends. -/
inductive Cleanup where
  /-- `erase` was called with the end iterator. -/
  | erasedEnd
  /-- The loop has left these entries and closed these descriptors. -/
  | finished (fds : List AutoClosedSocketFd) (closed : List Int)

/-- Closing one more descriptor before the rest of the loop. -/
def Cleanup.closing (c : Int) : Cleanup → Cleanup
  | .erasedEnd => .erasedEnd
  | .finished fds closed => .finished fds (c :: closed)

/-! ### Erasing -/

theorem moveDown_eq (x : AutoClosedSocketFd) (ys : List AutoClosedSocketFd) :
    moveDown x ys = (ys, if ys = [] then x.fd else INVALID_SOCKET) := by
  induction ys generalizing x with
  | nil => rfl
  | cons y ys ih =>
    rw [moveDown, ih, if_neg (List.cons_ne_nil y ys)]
    by_cases h : ys = []
    · rw [if_pos h]
      rfl
    · rw [if_neg h]

/-- Erasing a marked entry removes it and closes nothing. -/
theorem erase_marked (pre post : List AutoClosedSocketFd) {x : AutoClosedSocketFd}
    (hx : marked x) : erase (pre ++ x :: post) pre.length = some (pre ++ post, INVALID_SOCKET) := by
  induction pre with
  | nil =>
    have hfd : x.fd = INVALID_SOCKET := by simpa [marked] using hx
    simp [erase, moveDown_eq, hfd]
  | cons y pre ih => simp [erase, ih]

theorem erase_length : ∀ {fds : List AutoClosedSocketFd} {k : Nat} {r},
    erase fds k = some r → r.1.length + 1 = fds.length
  | x :: xs, 0, r, h => by
    rw [erase, moveDown_eq, Option.some.injEq] at h
    rw [← h, List.length_cons]
  | x :: xs, k + 1, r, h => by
    rw [erase, Option.map_eq_some_iff] at h
    obtain ⟨r', hr', rfl⟩ := h
    have := erase_length hr'
    simp only [List.length_cons]
    omega

theorem erase_end (fds : List AutoClosedSocketFd) : erase fds fds.length = none := by
  induction fds with
  | nil => rfl
  | cons x xs ih => simp [erase, ih]

theorem findInvalid_of_marked {pre post : List AutoClosedSocketFd} {x : AutoClosedSocketFd}
    (hpre : ∀ e ∈ pre, ¬ marked e) (hx : marked x) :
    findInvalid (pre ++ x :: post) = pre.length := by
  induction pre with
  | nil => simp [findInvalid, List.findIdx_cons, hx]
  | cons y pre ih =>
    have hy : marked y = false := by simpa using hpre y (by simp)
    have ih' := ih fun e he => hpre e (by simp [he])
    rw [findInvalid] at ih'
    simp [findInvalid, List.findIdx_cons, hy, ih']

theorem findInvalid_of_none {fds : List AutoClosedSocketFd} (h : ∀ e ∈ fds, ¬ marked e) :
    findInvalid fds = fds.length := by
  rw [findInvalid, List.findIdx_eq_length]
  simpa using h

/-- The entry in front of which a cleanup loop erases, if any is marked. -/
theorem exists_first_marked {fds : List AutoClosedSocketFd} (h : ∃ e ∈ fds, marked e) :
    ∃ pre x post, fds = pre ++ x :: post ∧ (∀ e ∈ pre, ¬ marked e) ∧ marked x := by
  cases hfind : fds.find? marked with
  | none =>
    rw [List.find?_eq_none] at hfind
    obtain ⟨e, he, hmarked⟩ := h
    exact absurd hmarked (hfind e he)
  | some x =>
    obtain ⟨hx, pre, post, hfds, hpre⟩ := List.find?_eq_some_iff_append.mp hfind
    exact ⟨pre, x, post, hfds, fun e he => by simpa using hpre e he, hx⟩

/-- One turn of a cleanup loop erases the first marked entry and closes
    nothing. -/
theorem erase_findInvalid {fds : List AutoClosedSocketFd} {r : List AutoClosedSocketFd × Int}
    (h : erase fds (findInvalid fds) = some r) : ∃ pre x post, fds = pre ++ x :: post ∧
      marked x ∧ r = (pre ++ post, INVALID_SOCKET) := by
  by_cases hmarked : ∃ e ∈ fds, marked e
  · obtain ⟨pre, x, post, rfl, hpre, hx⟩ := exists_first_marked hmarked
    rw [findInvalid_of_marked hpre hx, erase_marked _ _ hx] at h
    exact ⟨pre, x, post, rfl, hx, (Option.some.inj h).symm⟩
  · rw [findInvalid_of_none fun e he hm => hmarked ⟨e, he, hm⟩, erase_end] at h
    cases h

/-- It goes on as long as an entry is marked. -/
theorem erase_findInvalid_isSome {fds : List AutoClosedSocketFd} (h : ∃ e ∈ fds, marked e) :
    erase fds (findInvalid fds) ≠ none := by
  obtain ⟨pre, x, post, rfl, hpre, hx⟩ := exists_first_marked h
  rw [findInvalid_of_marked hpre hx, erase_marked _ _ hx]
  nofun

/-! ### The loops -/

/-- The cleanup of `WebServer::clientsListeningLoop`. -/
def clientsCleanup (fds : List AutoClosedSocketFd) : Cleanup :=
  if fds = [] then .finished [] []
  else
    match _h : erase fds (findInvalid fds) with
    | none => .erasedEnd
    | some r => (clientsCleanup r.1).closing r.2
termination_by fds.length
decreasing_by
  have := erase_length _h
  omega

/-- The cleanup of `ServersWrapper::serversListeningLoop`; `iter` is the
    distance of the iterator from `begin()`. The erased iterator is compared
    with `end()` as a position: the standard calls it invalid, and without
    debug checks the library reads it so. -/
def serversCleanup (fds : List AutoClosedSocketFd) (iter : Nat) : Cleanup :=
  if iter = fds.length then .finished fds []
  else
    match _h : erase fds (findInvalid fds) with
    | none => .erasedEnd
    | some r => (serversCleanup r.1 (findInvalid fds)).closing r.2
termination_by fds.length
decreasing_by
  have := erase_length _h
  omega

theorem clientsCleanup_marked {pre post : List AutoClosedSocketFd} {x : AutoClosedSocketFd}
    (hpre : ∀ e ∈ pre, ¬ marked e) (hx : marked x) :
    clientsCleanup (pre ++ x :: post) = (clientsCleanup (pre ++ post)).closing INVALID_SOCKET := by
  rw [clientsCleanup, if_neg (by simp)]
  split
  · next h =>
    rw [findInvalid_of_marked hpre hx, erase_marked _ _ hx] at h
    cases h
  · next r h =>
    rw [findInvalid_of_marked hpre hx, erase_marked _ _ hx] at h
    cases h
    rfl

theorem clientsCleanup_none {fds : List AutoClosedSocketFd} (h : ∀ e ∈ fds, ¬ marked e)
    (hne : fds ≠ []) : clientsCleanup fds = .erasedEnd := by
  rw [clientsCleanup, if_neg hne]
  split
  · rfl
  · next r hr =>
    rw [findInvalid_of_none h, erase_end] at hr
    cases hr

theorem serversCleanup_marked {pre post : List AutoClosedSocketFd} {x : AutoClosedSocketFd}
    {iter : Nat} (hiter : iter ≠ (pre ++ x :: post).length) (hpre : ∀ e ∈ pre, ¬ marked e)
    (hx : marked x) :
    serversCleanup (pre ++ x :: post) iter =
      (serversCleanup (pre ++ post) pre.length).closing INVALID_SOCKET := by
  rw [serversCleanup, if_neg hiter]
  split
  · next h =>
    rw [findInvalid_of_marked hpre hx, erase_marked _ _ hx] at h
    cases h
  · next r h =>
    rw [findInvalid_of_marked hpre hx, erase_marked _ _ hx] at h
    cases h
    rw [findInvalid_of_marked hpre hx]

theorem serversCleanup_none {fds : List AutoClosedSocketFd} {iter : Nat}
    (hiter : iter ≠ fds.length) (h : ∀ e ∈ fds, ¬ marked e) :
    serversCleanup fds iter = .erasedEnd := by
  rw [serversCleanup, if_neg hiter]
  split
  · rfl
  · next r hr =>
    rw [findInvalid_of_none h, erase_end] at hr
    cases hr

/-! ### When the cleanup is right -/

/-- The loop ends with the entries that were not marked, in their order, and
    has closed no descriptor that was not marked. -/
def Cleans (fds : List AutoClosedSocketFd) (c : Cleanup) : Prop :=
  ∃ closed, c = .finished (fds.filter fun e => !marked e) closed ∧
    ∀ fd ∈ closed, fd = INVALID_SOCKET

theorem cleans_closing {fds : List AutoClosedSocketFd} {c : Cleanup} :
    Cleans fds (c.closing INVALID_SOCKET) ↔ Cleans fds c := by
  cases c with
  | erasedEnd => exact Iff.rfl
  | finished left closed =>
    constructor
    · intro h'
      obtain ⟨_, h, hclosed⟩ := h'
      cases h
      exact ⟨closed, rfl, fun fd hfd => hclosed fd (by simp [hfd])⟩
    · intro h'
      obtain ⟨_, h, hclosed⟩ := h'
      cases h
      refine ⟨INVALID_SOCKET :: closed, rfl, fun fd hfd => ?_⟩
      rcases List.mem_cons.mp hfd with h | h
      · exact h
      · exact hclosed fd h

theorem not_cleans_erasedEnd (fds : List AutoClosedSocketFd) : ¬ Cleans fds .erasedEnd := by
  intro h'
  obtain ⟨_, h, _⟩ := h'
  cases h

theorem filter_marked {pre post : List AutoClosedSocketFd} {x : AutoClosedSocketFd}
    (hx : marked x) : (pre ++ x :: post).filter (fun e => !marked e) =
      (pre ++ post).filter fun e => !marked e := by
  simp [hx]

/-- Induction on the first marked entry. -/
theorem marked_induction {motive : List AutoClosedSocketFd → Prop}
    (none : ∀ fds, (∀ e ∈ fds, ¬ marked e) → motive fds)
    (first : ∀ pre x post, (∀ e ∈ pre, ¬ marked e) → marked x → motive (pre ++ post) →
      motive (pre ++ x :: post)) (fds : List AutoClosedSocketFd) : motive fds := by
  induction hn : fds.length using Nat.strongRecOn generalizing fds with
  | ind n ih =>
    -- the vector is cut at its first marked entry
    cases hfind : fds.find? marked with
    | none =>
      rw [List.find?_eq_none] at hfind
      exact none fds hfind
    | some x =>
      obtain ⟨hx, pre, post, rfl, hpre⟩ := List.find?_eq_some_iff_append.mp hfind
      refine first pre x post (fun e he => by simpa using hpre e he) hx ?_
      refine ih _ ?_ (pre ++ post) rfl
      rw [← hn, List.length_append, List.length_append, List.length_cons]
      omega

/-- The clients loop is right exactly when every entry is marked. -/
theorem clientsCleanup_cleans_iff (fds : List AutoClosedSocketFd) :
    Cleans fds (clientsCleanup fds) ↔ ∀ e ∈ fds, marked e := by
  induction fds using marked_induction with
  | none fds h =>
    by_cases hne : fds = []
    · subst hne
      rw [clientsCleanup, if_pos rfl]
      exact iff_of_true ⟨[], rfl, by simp⟩ (by simp)
    · rw [clientsCleanup_none h hne]
      refine iff_of_false (not_cleans_erasedEnd fds) fun hall => ?_
      obtain ⟨e, he⟩ := List.exists_mem_of_ne_nil fds hne
      exact h e he (hall e he)
  | first pre x post hpre hx ih =>
    have hfilter : Cleans (pre ++ x :: post) = Cleans (pre ++ post) := by
      funext c
      rw [Cleans, Cleans, filter_marked hx]
    rw [clientsCleanup_marked hpre hx, cleans_closing, hfilter, ih, List.forall_mem_append,
      List.forall_mem_append, List.forall_mem_cons, and_iff_right hx]

/-- The servers loop is right exactly when the last entry is marked. -/
theorem serversCleanup_cleans_iff (fds : List AutoClosedSocketFd) :
    Cleans fds (serversCleanup fds 0) ↔ ∀ e ∈ fds.getLast?, marked e := by
  by_cases hne : fds = []
  · subst hne
    rw [serversCleanup, List.length_nil, if_pos rfl]
    exact iff_of_true ⟨[], rfl, by simp⟩ (by simp)
  -- the iterator matters only when it is the end of the vector
  suffices h : ∀ iter, iter ≠ fds.length →
      (Cleans fds (serversCleanup fds iter) ↔ ∀ e ∈ fds.getLast?, marked e) from
    h 0 fun h0 => hne (List.eq_nil_of_length_eq_zero h0.symm)
  induction fds using marked_induction with
  | none fds h =>
    intro iter hiter
    rw [serversCleanup_none hiter h]
    refine iff_of_false (not_cleans_erasedEnd fds) fun hlast => ?_
    have hmem := List.getLast?_eq_some_getLast hne
    exact h _ (List.getLast_mem hne) (hlast _ hmem)
  | first pre x post hpre hx ih =>
    intro iter hiter
    have hfilter : Cleans (pre ++ x :: post) = Cleans (pre ++ post) := by
      funext c
      rw [Cleans, Cleans, filter_marked hx]
    rw [serversCleanup_marked hiter hpre hx, cleans_closing, hfilter]
    by_cases hpost : post = []
    · -- the erased entry was the last one: the loop is left
      subst hpost
      rw [List.append_nil, serversCleanup, if_pos rfl]
      have hkeep : pre.filter (fun e => !marked e) = pre := by
        rw [List.filter_eq_self]
        exact fun e he => by simpa using hpre e he
      exact iff_of_true ⟨[], by rw [hkeep], by simp⟩ (by simp [hx])
    · have hne' : pre ++ post ≠ [] := by simp [hpost]
      have hlen : pre.length ≠ (pre ++ post).length := by
        have := List.length_pos_iff.mpr hpost
        rw [List.length_append]
        omega
      rw [ih hne' pre.length hlen, List.getLast?_append_of_ne_nil _ hpost,
        List.getLast?_append_of_ne_nil _ (by simp), List.getLast?_cons_of_ne_nil hpost]

/-- **The two cleanup loops**, each with its condition. -/
theorem cleanup_cleans_iff (fds : List AutoClosedSocketFd) :
    (Cleans fds (clientsCleanup fds) ↔ ∀ e ∈ fds, marked e) ∧
      (Cleans fds (serversCleanup fds 0) ↔ ∀ e ∈ fds.getLast?, marked e) :=
  ⟨clientsCleanup_cleans_iff fds, serversCleanup_cleans_iff fds⟩

/-- Of two connections one stays idle, behind the one that is dropped. -/
theorem cleanup_idle : ¬ ∀ fds : List AutoClosedSocketFd, (∃ e ∈ fds, marked e) →
    Cleans fds (clientsCleanup fds) ∧ Cleans fds (serversCleanup fds 0) := by
  intro hall
  have hclients := (hall [⟨-1, 1⟩, ⟨7, 1⟩] (by decide)).1
  exact absurd ((clientsCleanup_cleans_iff _).mp hclients) (by decide)

end ServersCore
