import Mathlib.Data.Finset.Insert
import Mathlib.Data.Fintype.EquivFin
import Mathlib.Data.Nat.Find

/-!
The sockets that `udp_client` and `udp_multicast_client` of `socket/socket.h` open and close while
they go through the addresses of `getaddrinfo`.
-/

namespace Kungfu.Yijinjing.Socket

/-- The descriptor that `::socket` returns: the lowest that the process does not have open. -/
def lowest (descriptors : Finset Nat) : Nat :=
  Nat.find (Infinite.exists_notMem_finset descriptors)

theorem lowest_notMem (descriptors : Finset Nat) : lowest descriptors ∉ descriptors :=
  Nat.find_spec (Infinite.exists_notMem_finset descriptors)

/-- What the system calls for an address return: whether there is a socket, and, for a descriptor
that is open, whether `SO_REUSEADDR` is set and the address bound. -/
structure AddrInfo where
  created : Bool
  reusable : Bool
  binds : Bool

/-- The descriptors of the process, and what the pointer `sock` holds: an object with `sock_`, of
which `none` is -1. -/
structure Process where
  descriptors : Finset Nat
  sock : Option (Option Nat)

namespace Process

/-- `::close(sock_)`; a descriptor that is not open is an error nobody looks at. -/
def close (p : Process) : Process :=
  { p with descriptors := p.sock.join.elim p.descriptors p.descriptors.erase }

def release (p : Process) : Finset Nat := p.close.descriptors

/-- `sock = std::make_shared<socket>(...)`. -/
def renew (p : Process) (created : Bool) : Process :=
  let fd := if created then some (lowest p.descriptors) else none
  let opened := fd.elim p.descriptors (insert · p.descriptors)
  -- the old object goes when the new one has its descriptor
  ⟨release ⟨opened, p.sock⟩, some fd⟩

def valid (p : Process) : Option Nat := p.sock.join.filter (· ∈ p.descriptors)

/-- The loop over the addresses, and whether it was left by `break`. -/
def bindLoop : List AddrInfo → Process → Bool × Process
  | [], p => (false, p)
  | rp :: rest, p =>
    let p := p.renew rp.created
    if p.sock = some none then bindLoop rest p
    else if !(p.valid.isSome && rp.reusable) then bindLoop rest p
    else if p.valid.isSome && rp.binds then (true, p)
    else bindLoop rest p.close

end Process

/-- `socket_factory::udp_client`: the descriptor of the socket that is returned, and those that are
open then. -/
def udpClient (descriptors : Finset Nat) (result : Option (List AddrInfo)) (nonBlocking : Bool) :
    Option Nat × Finset Nat :=
  match result with
  | none => (none, descriptors)
  | some addrs =>
    let (bound, p) := Process.bindLoop addrs ⟨descriptors, none⟩
    if !bound then (none, p.release)
    else if p.valid.isSome && nonBlocking then (p.sock.join, p.descriptors)
    else (none, p.close.release)

def udpMulticastClient (descriptors : Finset Nat) (result : Option (List AddrInfo))
    (nonBlocking joins : Bool) : Option Nat × Finset Nat :=
  match udpClient descriptors result nonBlocking with
  | (none, descriptors) => (none, descriptors)
  | (some fd, descriptors) =>
    if fd ∈ descriptors ∧ joins then (some fd, descriptors) else (none, descriptors.erase fd)

namespace Process

variable {base : Finset Nat} {p : Process}

structure Owns (base : Finset Nat) (p : Process) : Prop where
  new : ∀ fd ∈ p.sock.join, fd ∉ base
  descriptors : p.descriptors = base ∨ ∃ fd ∈ p.sock.join, p.descriptors = insert fd base

theorem owns_start (base : Finset Nat) : Owns base ⟨base, none⟩ :=
  ⟨fun _ h => (nomatch h), .inl rfl⟩

theorem Owns.release (h : p.Owns base) : p.release = base := by
  rw [Process.release, close]
  cases hsock : p.sock.join with
  | none =>
    obtain heq | ⟨fd, hfd, -⟩ := h.descriptors
    · exact heq
    · rw [hsock] at hfd
      cases hfd
  | some fd =>
    have hnew := h.new fd hsock
    obtain heq | ⟨fd', hfd', heq⟩ := h.descriptors
    · rw [heq]
      exact Finset.erase_eq_of_notMem hnew
    · obtain rfl := Option.some.inj (hsock.symm.trans hfd')
      rw [heq]
      exact Finset.erase_insert hnew

theorem Owns.close (h : p.Owns base) : p.close.Owns base :=
  ⟨h.new, .inl h.release⟩

theorem Owns.renew (h : p.Owns base) (created : Bool) : (p.renew created).Owns base := by
  cases created with
  | false => exact ⟨fun _ hfd => (nomatch hfd), .inl h.release⟩
  | true =>
    have hfresh := lowest_notMem p.descriptors
    have hbase : lowest p.descriptors ∉ base := by
      obtain heq | ⟨fd, -, heq⟩ := h.descriptors
      · exact heq ▸ hfresh
      · intro hmem
        have hinsert : lowest p.descriptors ∈ insert fd base := Finset.mem_insert_of_mem hmem
        exact hfresh (heq.symm.subset hinsert)
    refine ⟨fun fd hfd => Option.some.inj hfd ▸ hbase, ?_⟩
    -- the descriptor that is closed may be the one that was just opened
    have hrenew : (p.renew true).descriptors = p.sock.join.elim
        (insert (lowest p.descriptors) p.descriptors)
        (insert (lowest p.descriptors) p.descriptors).erase := rfl
    rw [hrenew]
    cases hsock : p.sock.join with
    | none =>
      obtain heq | ⟨fd, hfd, -⟩ := h.descriptors
      · exact .inr ⟨lowest p.descriptors, rfl, by rw [heq]; rfl⟩
      · rw [hsock] at hfd
        cases hfd
    | some old =>
      have hold := h.new old hsock
      rw [Option.elim_some]
      by_cases hne : old = lowest p.descriptors
      · obtain heq | ⟨fd, hfd, heq⟩ := h.descriptors
        · exact .inl (by rw [hne, Finset.erase_insert hfresh, heq])
        · obtain rfl := Option.some.inj (hsock.symm.trans hfd)
          exact absurd (heq ▸ Finset.mem_insert_self old base) (hne ▸ hfresh)
      · refine .inr ⟨lowest p.descriptors, rfl, ?_⟩
        rw [Finset.erase_insert_of_ne (Ne.symm hne)]
        obtain heq | ⟨fd, hfd, heq⟩ := h.descriptors
        · rw [heq, Finset.erase_eq_of_notMem hold]
        · obtain rfl := Option.some.inj (hsock.symm.trans hfd)
          rw [heq, Finset.erase_insert hold]

theorem Owns.valid (h : p.Owns base) {fd : Nat} (hvalid : p.valid = some fd) :
    p.sock.join = some fd ∧ fd ∉ base ∧ p.descriptors = insert fd base := by
  obtain ⟨hsock, hmem⟩ := Option.filter_eq_some_iff.mp hvalid
  have hnew := h.new fd hsock
  refine ⟨hsock, hnew, ?_⟩
  obtain heq | ⟨fd', hfd', heq⟩ := h.descriptors
  · rw [heq] at hmem
    exact absurd (of_decide_eq_true hmem) hnew
  · obtain rfl := Option.some.inj (hsock.symm.trans hfd')
    exact heq

theorem Owns.bindLoop (h : p.Owns base) (addrs : List AddrInfo) :
    (bindLoop addrs p).2.Owns base := by
  induction addrs generalizing p with
  | nil => exact h
  | cons rp rest ih =>
    have hrenew := h.renew rp.created
    rw [Process.bindLoop]
    split
    · exact ih hrenew
    · split
      · exact ih hrenew
      · split
        · exact hrenew
        · exact ih hrenew.close

def opened (base : Finset Nat) : Process :=
  ⟨insert (lowest base) base, some (some (lowest base))⟩

/-- The socket of `sock` is closed, and the next one will get its descriptor. -/
def stale (base : Finset Nat) : Process := ⟨base, some (some (lowest base))⟩

theorem valid_opened (base : Finset Nat) : (opened base).valid = some (lowest base) :=
  Option.filter_eq_some_iff.mpr ⟨rfl, decide_eq_true (Finset.mem_insert_self _ _)⟩

theorem valid_stale (base : Finset Nat) : (stale base).valid = none := by
  refine Option.filter_eq_none_iff.mpr fun fd hfd => ?_
  obtain rfl := Option.some.inj hfd
  rw [decide_eq_true_eq]
  exact lowest_notMem base

theorem close_opened (base : Finset Nat) : (opened base).close = stale base :=
  congrArg (Process.mk · (some (some (lowest base)))) (Finset.erase_insert (lowest_notMem base))

theorem exists_renew_opened (base : Finset Nat) :
    ∃ fd, ((opened base).renew true).sock = some (some fd) ∧
      ((opened base).renew true).valid = some fd := by
  refine ⟨lowest (opened base).descriptors, rfl, Option.filter_eq_some_iff.mpr ⟨rfl, ?_⟩⟩
  have hfresh := lowest_notMem (opened base).descriptors
  have hne : lowest (opened base).descriptors ≠ lowest base := fun heq =>
    hfresh (heq ▸ Finset.mem_insert_self _ _)
  rw [decide_eq_true_eq]
  exact Finset.mem_erase.mpr ⟨hne, Finset.mem_insert_self _ _⟩

/-- The destructor of the old object closes the new socket. -/
theorem renew_stale (base : Finset Nat) : (stale base).renew true = stale base :=
  congrArg (Process.mk · (some (some (lowest base)))) (Finset.erase_insert (lowest_notMem base))

theorem bindLoop_stale {addrs : List AddrInfo} (hcreated : ∀ rp ∈ addrs, rp.created = true) :
    (bindLoop addrs (stale base)).1 = false := by
  induction addrs with
  | nil => rfl
  | cons rp rest ih =>
    have hsock : ¬ (stale base).sock = some none := by simp [stale]
    rw [bindLoop, hcreated rp (.head _), renew_stale, if_neg hsock, valid_stale, if_pos (by simp)]
    exact ih fun rp' hrp' => hcreated rp' (.tail _ hrp')

structure Bare (base : Finset Nat) (p : Process) : Prop where
  descriptors : p.descriptors = base
  sock : p.sock.join = none

theorem Bare.bindLoop_append (h : p.Bare base) {before : List AddrInfo}
    (hcreated : ∀ rp ∈ before, rp.created = false) (addrs : List AddrInfo) :
    ∃ p', p'.Bare base ∧ bindLoop (before ++ addrs) p = bindLoop addrs p' := by
  induction before generalizing p with
  | nil => exact ⟨p, h, rfl⟩
  | cons rp before ih =>
    have hrenew : (p.renew false).Bare base := by
      refine ⟨?_, rfl⟩
      change p.sock.join.elim p.descriptors p.descriptors.erase = base
      rw [h.sock]
      exact h.descriptors
    obtain ⟨p', hp', heq⟩ := ih hrenew fun rp' hrp' => hcreated rp' (.tail _ hrp')
    refine ⟨p', hp', ?_⟩
    rw [List.cons_append, bindLoop, hcreated rp (.head _)]
    exact (if_pos rfl).trans heq

theorem Bare.renew (h : p.Bare base) : p.renew true = opened base := by
  obtain ⟨descriptors, sock⟩ := p
  obtain ⟨hdescriptors, hsock⟩ := h
  dsimp only at hdescriptors hsock
  subst hdescriptors
  rw [Process.renew, release, close, hsock]
  rfl

theorem Bare.bindLoop_cons (h : p.Bare base) {rp : AddrInfo} (hcreated : rp.created = true)
    (hreusable : rp.reusable = true) (rest : List AddrInfo) : bindLoop (rp :: rest) p =
      if rp.binds then (true, opened base) else bindLoop rest (stale base) := by
  have hsock : ¬ (opened base).sock = some none := by simp [opened]
  rw [bindLoop, hcreated, h.renew, if_neg hsock, valid_opened, hreusable, if_neg (by simp),
    close_opened]
  rfl

end Process

structure Accounted (descriptors : Finset Nat) (r : Option Nat × Finset Nat) : Prop where
  none : r.1 = none → r.2 = descriptors
  some : ∀ fd, r.1 = some fd → fd ∉ descriptors ∧ r.2 = insert fd descriptors

theorem accounted_udpClient (descriptors : Finset Nat) (result : Option (List AddrInfo))
    (nonBlocking : Bool) : Accounted descriptors (udpClient descriptors result nonBlocking) := by
  cases result with
  | none => exact ⟨fun _ => rfl, fun _ h => nomatch h⟩
  | some addrs =>
    have howns := (Process.owns_start descriptors).bindLoop addrs
    simp only [udpClient]
    split
    next => exact ⟨fun _ => howns.release, fun _ h => nomatch h⟩
    next =>
      split
      next h =>
        obtain ⟨fd, hvalid⟩ := Option.isSome_iff_exists.mp (Bool.and_eq_true_iff.mp h).1
        obtain ⟨hsock, hnew, heq⟩ := howns.valid hvalid
        refine ⟨fun hnone => ?_, fun fd' hfd' => ?_⟩
        · rw [hsock] at hnone
          cases hnone
        · obtain rfl := Option.some.inj (hsock.symm.trans hfd')
          exact ⟨hnew, heq⟩
      next => exact ⟨fun _ => howns.close.release, fun _ h => nomatch h⟩

theorem Accounted.udpMulticastClient {descriptors : Finset Nat} {result : Option (List AddrInfo)}
    {nonBlocking : Bool} (h : Accounted descriptors (udpClient descriptors result nonBlocking))
    (joins : Bool) :
    Accounted descriptors (udpMulticastClient descriptors result nonBlocking joins) := by
  rw [Socket.udpMulticastClient]
  generalize udpClient descriptors result nonBlocking = r at h ⊢
  obtain ⟨_ | fd, descriptors'⟩ := r
  · exact h
  · obtain ⟨hnew, heq⟩ := h.some fd rfl
    dsimp only at heq ⊢
    split
    next => exact h
    next =>
      refine ⟨fun _ => ?_, fun _ h => nomatch h⟩
      rw [heq]
      exact Finset.erase_insert hnew

theorem accounted_udpMulticastClient (descriptors : Finset Nat)
    (result : Option (List AddrInfo)) (nonBlocking joins : Bool) :
    Accounted descriptors (udpClient descriptors result nonBlocking) ∧
      Accounted descriptors (udpMulticastClient descriptors result nonBlocking joins) := by
  have haccounted := accounted_udpClient descriptors result nonBlocking
  exact ⟨haccounted, haccounted.udpMulticastClient joins⟩

/-- An address behind the first for which there is a socket is of no use where `SO_REUSEADDR` can be
set for that one and the system has sockets for all behind it: a failed `bind` closes the
descriptor twice, the second time as that of the next socket. -/
theorem udpClient_isSome_iff (descriptors : Finset Nat) (before after : List AddrInfo)
    (rp : AddrInfo) (nonBlocking : Bool) (hbefore : ∀ rp ∈ before, rp.created = false)
    (hcreated : rp.created = true) (hreusable : rp.reusable = true)
    (hafter : ∀ rp ∈ after, rp.created = true) :
    (udpClient descriptors (some (before ++ rp :: after)) nonBlocking).1.isSome = true ↔
      rp.binds = true ∧ nonBlocking = true := by
  have hbare : Process.Bare descriptors ⟨descriptors, none⟩ := ⟨rfl, rfl⟩
  obtain ⟨p, hp, happend⟩ := hbare.bindLoop_append hbefore (rp :: after)
  simp only [udpClient, happend, hp.bindLoop_cons hcreated hreusable]
  cases hbinds : rp.binds with
  | true =>
    simp only [if_true, Bool.not_true, Bool.false_eq_true, if_false, Process.valid_opened,
      Option.isSome_some, Bool.true_and, true_and]
    split
    next h => exact iff_of_true rfl h
    next h => exact iff_of_false (by simp) h
  | false =>
    simp only [Bool.false_eq_true, if_false, Process.bindLoop_stale hafter, Bool.not_false, if_true,
      false_and, Option.isSome_none]

theorem udpClient_isSome_iff_taken :
    (udpClient {0, 1, 2} (some ([⟨false, false, false⟩] ++
      ⟨true, true, false⟩ :: [⟨true, true, true⟩])) true).1.isSome = true ↔
        false = true ∧ true = true :=
  udpClient_isSome_iff {0, 1, 2} [⟨false, false, false⟩] [⟨true, true, true⟩]
    ⟨true, true, false⟩ true (by simp) rfl rfl (by simp)

/-- A first socket that cannot be made reusable is closed once, so the second address is of use. -/
theorem isSome_udpClient_of_not_reusable (descriptors : Finset Nat) (rp rp' : AddrInfo)
    (rest : List AddrInfo) (hcreated : rp.created = true) (hreusable : rp.reusable = false)
    (hrp' : rp' = ⟨true, true, true⟩) :
    (udpClient descriptors (some (rp :: rp' :: rest)) true).1.isSome = true := by
  subst hrp'
  have hbare : Process.Bare descriptors ⟨descriptors, none⟩ := ⟨rfl, rfl⟩
  obtain ⟨fd, hrenew, hvalid⟩ := Process.exists_renew_opened descriptors
  have hfirst : ¬ (Process.opened descriptors).sock = some none := by simp [Process.opened]
  have hloop : Process.bindLoop (rp :: ⟨true, true, true⟩ :: rest) ⟨descriptors, none⟩ =
      (true, (Process.opened descriptors).renew true) := by
    rw [Process.bindLoop, hcreated, hbare.renew, if_neg hfirst, hreusable,
      if_pos (by simp), Process.bindLoop, if_neg (by simp [hrenew]), hvalid, if_neg (by simp),
      if_pos (by simp)]
  simp only [udpClient, hloop, hvalid, hrenew]
  rfl

end Kungfu.Yijinjing.Socket
