import Mathlib.Data.List.Induction
import Mathlib.Data.Nat.Find
import Mathlib.Tactic.ByContra
import SplitTraversal.Proofs.Announcements

/-! Who hears of an event after a history of subscribing and unsubscribing, told by the history
alone. A subscription begins when a seat is taken that is free at that moment, and lasts until the
seat is left. An event is handed to everyone who is seated, in the order in which the subscriptions
began, and what a handler throws is reported once, right after its call. -/

namespace SplitTraversal

structure Seat (κ η : Type) where
  row : Option κ
  handler : η
deriving DecidableEq

inductive Booking (κ η : Type) where
  | take (seat : Seat κ η)
  | leave (seat : Seat κ η)
deriving DecidableEq

variable {κ η E β : Type}

def Booking.apply [DecidableEq κ] [DecidableEq η] : Booking κ η → Bus κ η → Bus κ η
  | .take ⟨some kind, handler⟩ => Bus.on kind handler
  | .take ⟨none, handler⟩ => Bus.onAny handler
  | .leave ⟨some kind, handler⟩ => Bus.off kind handler
  | .leave ⟨none, handler⟩ => Bus.offAny handler

/-- Booking number `n` of the history took the seat while it was free, and none since has left it. -/
structure Lasts (history : List (Booking κ η)) (seat : Seat κ η) (n : Nat) : Prop where
  began : history[n]? = some (.take seat)
  fresh : ∀ i < n, history[i]? = some (.take seat) →
    ∃ j, i < j ∧ j < n ∧ history[j]? = some (.leave seat)
  kept : ∀ j, n < j → history[j]? ≠ some (.leave seat)

/-- The handlers with a seat in a row, in the order in which their subscriptions began. -/
structure Seated (history : List (Booking κ η)) (row : Option κ) (handlers : List η) : Prop where
  exact : ∀ h, h ∈ handlers ↔ ∃ n, Lasts history ⟨row, h⟩ n
  ordered : handlers.Pairwise fun g h =>
    ∀ m n, Lasts history ⟨row, g⟩ m → Lasts history ⟨row, h⟩ n → m < n
  nodup : handlers.Nodup

theorem getElem?_snoc_iff {α : Type} {xs : List α} {x y : α} {i : Nat} :
    (xs ++ [x])[i]? = some y ↔ xs[i]? = some y ∨ i = xs.length ∧ x = y := by
  rcases Nat.lt_trichotomy i xs.length with before | last | beyond
  · rw [List.getElem?_append_left before, or_iff_left (fun last => Nat.ne_of_lt before last.1)]
  · rw [last, List.getElem?_concat_length, List.getElem?_eq_none (Nat.le_refl _)]
    simp
  · rw [List.getElem?_eq_none (List.length_append ▸ Nat.succ_le_of_lt beyond),
      List.getElem?_eq_none (Nat.le_of_lt beyond)]
    simp only [reduceCtorEq, false_or, false_iff]
    exact fun last => Nat.ne_of_gt beyond last.1

namespace Lasts

variable {history : List (Booking κ η)} {s : Seat κ η} {n : Nat}

theorem lt_length (lasts : Lasts history s n) : n < history.length :=
  (List.getElem?_eq_some_iff.mp lasts.began).1

/-- Of the bookings that took a seat since it was last left, the first one began the subscription. -/
theorem exists_of_take (took : history[n]? = some (Booking.take s))
    (kept : ∀ j, n < j → history[j]? ≠ some (Booking.leave s)) : ∃ m, Lasts history s m := by
  classical
  have some : ∃ m, history[m]? = some (Booking.take s) ∧
      ∀ j, m < j → history[j]? ≠ some (Booking.leave s) := ⟨n, took, kept⟩
  obtain ⟨began, stays⟩ := Nat.find_spec some
  refine ⟨Nat.find some, began, ?_, stays⟩
  intro i earlier took'
  by_contra never
  refine Nat.find_min some earlier ⟨took', ?_⟩
  intro j after left
  rcases Nat.lt_trichotomy j (Nat.find some) with before | here | later
  · exact never ⟨j, after, before, left⟩
  · rw [here, began] at left
    cases left
  · exact stays j later left

theorem append_of_ne {r : Booking κ η} (taken : r ≠ .take s) (left : r ≠ .leave s) :
    Lasts (history ++ [r]) s n ↔ Lasts history s n := by
  have take (i : Nat) : (history ++ [r])[i]? = some (.take s) ↔ history[i]? = some (.take s) :=
    getElem?_snoc_iff.trans (or_iff_left fun last => taken last.2)
  have leave (i : Nat) : (history ++ [r])[i]? = some (.leave s) ↔ history[i]? = some (.leave s) :=
    getElem?_snoc_iff.trans (or_iff_left fun last => left last.2)
  constructor
  · intro lasts
    refine ⟨(take n).mp lasts.began, ?_, ?_⟩
    · simpa only [take, leave] using lasts.fresh
    · simpa only [leave, ne_eq] using lasts.kept
  · intro lasts
    refine ⟨(take n).mpr lasts.began, ?_, ?_⟩
    · simpa only [take, leave] using lasts.fresh
    · simpa only [leave, ne_eq] using lasts.kept

theorem append_take : Lasts (history ++ [.take s]) s n ↔
    Lasts history s n ∨ n = history.length ∧ ∀ m, ¬Lasts history s m := by
  have leave (i : Nat) :
      (history ++ [.take s])[i]? = some (.leave s) ↔ history[i]? = some (.leave s) :=
    getElem?_snoc_iff.trans (or_iff_left fun last => nomatch last.2)
  have inside {j : Nat} (left : history[j]? = some (.leave s)) : j < history.length :=
    (List.getElem?_eq_some_iff.mp left).1
  constructor
  · intro lasts
    have kept : ∀ j, n < j → history[j]? ≠ some (.leave s) := by
      simpa only [leave, ne_eq] using lasts.kept
    rcases getElem?_snoc_iff.mp lasts.began with began | ⟨last, -⟩
    · refine .inl ⟨began, ?_, kept⟩
      intro i earlier took
      obtain ⟨j, between⟩ := lasts.fresh i earlier (getElem?_snoc_iff.mpr (.inl took))
      exact ⟨j, by simpa only [leave] using between⟩
    · refine .inr ⟨last, ?_⟩
      intro m before
      obtain ⟨j, after, -, left⟩ := lasts.fresh m (last ▸ before.lt_length)
        (getElem?_snoc_iff.mpr (.inl before.began))
      exact before.kept j after ((leave j).mp left)
  · rintro (lasts | ⟨rfl, none⟩)
    · refine ⟨getElem?_snoc_iff.mpr (.inl lasts.began), ?_, ?_⟩
      · intro i earlier took
        rcases getElem?_snoc_iff.mp took with took | ⟨last, -⟩
        · simpa only [leave] using lasts.fresh i earlier took
        · exact absurd lasts.lt_length (by omega)
      · simpa only [leave, ne_eq] using lasts.kept
    · refine ⟨List.getElem?_concat_length, ?_, ?_⟩
      · intro i earlier took
        by_contra never
        rcases getElem?_snoc_iff.mp took with took | ⟨last, -⟩
        · obtain ⟨m, lasts⟩ := exists_of_take took fun j after left =>
            never ⟨j, after, inside left, (leave j).mpr left⟩
          exact none m lasts
        · exact Nat.ne_of_lt earlier last
      · intro j after left
        exact Nat.lt_asymm after (inside ((leave j).mp left))

theorem not_append_leave : ¬Lasts (history ++ [.leave s]) s n := by
  intro lasts
  rcases getElem?_snoc_iff.mp lasts.began with began | ⟨-, impossible⟩
  · exact lasts.kept history.length (List.getElem?_eq_some_iff.mp began).1
      List.getElem?_concat_length
  · cases impossible

end Lasts

namespace Seated

variable {history : List (Booking κ η)} {row : Option κ} {handlers : List η}

theorem nil (row : Option κ) : Seated ([] : List (Booking κ η)) row [] := by
  refine ⟨fun h => ?_, .nil, .nil⟩
  refine iff_of_false List.not_mem_nil ?_
  rintro ⟨n, lasts⟩
  exact Nat.not_lt_zero n lasts.lt_length

theorem append_of_ne (seated : Seated history row handlers) {r : Booking κ η}
    (taken : ∀ h, r ≠ .take ⟨row, h⟩) (left : ∀ h, r ≠ .leave ⟨row, h⟩) :
    Seated (history ++ [r]) row handlers := by
  have same (h : η) (n : Nat) : Lasts (history ++ [r]) ⟨row, h⟩ n ↔ Lasts history ⟨row, h⟩ n :=
    Lasts.append_of_ne (taken h) (left h)
  refine ⟨?_, ?_, seated.nodup⟩
  · simpa only [same] using seated.exact
  · simpa only [same] using seated.ordered

/-- Whoever subscribes again keeps the old seat. -/
theorem take_of_mem (seated : Seated history row handlers) {h : η} (here : h ∈ handlers) :
    Seated (history ++ [.take ⟨row, h⟩]) row handlers := by
  have same (g : η) (n : Nat) :
      Lasts (history ++ [.take ⟨row, h⟩]) ⟨row, g⟩ n ↔ Lasts history ⟨row, g⟩ n := by
    by_cases own : h = g
    · obtain ⟨m, lasts⟩ := (seated.exact g).mp (own ▸ here)
      rw [own, Lasts.append_take]
      exact or_iff_left fun begins => begins.2 m lasts
    · exact Lasts.append_of_ne (by simpa using own) (by simp)
  refine ⟨?_, ?_, seated.nodup⟩
  · simpa only [same] using seated.exact
  · simpa only [same] using seated.ordered

theorem take_of_not_mem (seated : Seated history row handlers) {h : η} (absent : h ∉ handlers) :
    Seated (history ++ [.take ⟨row, h⟩]) row (handlers ++ [h]) := by
  have none : ∀ m, ¬Lasts history ⟨row, h⟩ m := fun m lasts =>
    absent ((seated.exact h).mpr ⟨m, lasts⟩)
  have last (n : Nat) :
      Lasts (history ++ [.take ⟨row, h⟩]) ⟨row, h⟩ n ↔ n = history.length := by
    rw [Lasts.append_take, or_iff_right (none n), and_iff_left none]
  have other {g : η} (differs : h ≠ g) (n : Nat) :
      Lasts (history ++ [.take ⟨row, h⟩]) ⟨row, g⟩ n ↔ Lasts history ⟨row, g⟩ n :=
    Lasts.append_of_ne (by simpa using differs) (by simp)
  have differs {g : η} (here : g ∈ handlers) : h ≠ g := fun same => absent (same ▸ here)
  refine ⟨fun g => ?_, ?_, ?_⟩
  · by_cases own : h = g
    · simp [← own, last]
    · simp [other own, ← seated.exact, Ne.symm own]
  · refine List.pairwise_append.mpr ⟨?_, List.pairwise_singleton _ _, ?_⟩
    · refine seated.ordered.imp_of_mem ?_
      intro f g hereF hereG before m n first second
      rw [other (differs hereF)] at first
      rw [other (differs hereG)] at second
      exact before m n first second
    · intro g here h' new m n first second
      rw [List.mem_singleton.mp new, last] at second
      rw [other (differs here)] at first
      exact second ▸ first.lt_length
  · refine List.nodup_append.mpr ⟨seated.nodup, List.pairwise_singleton _ _, ?_⟩
    intro g here h' new same
    exact differs here ((List.mem_singleton.mp new).symm.trans same.symm)

theorem leave [DecidableEq η] (seated : Seated history row handlers) (h : η) :
    Seated (history ++ [.leave ⟨row, h⟩]) row (handlers.filter (· ≠ h)) := by
  have other {g : η} (differs : g ≠ h) (n : Nat) :
      Lasts (history ++ [.leave ⟨row, h⟩]) ⟨row, g⟩ n ↔ Lasts history ⟨row, g⟩ n :=
    Lasts.append_of_ne (by simp) (by simpa using Ne.symm differs)
  have differs {g : η} (stays : g ∈ handlers.filter (· ≠ h)) : g ≠ h := by
    simpa using (List.mem_filter.mp stays).2
  refine ⟨fun g => ?_, ?_, seated.nodup.filter _⟩
  · by_cases own : g = h
    · simp [own, Lasts.not_append_leave]
    · simp [own, other own, ← seated.exact]
  · refine (seated.ordered.filter _).imp_of_mem ?_
    intro f g hereF hereG before m n first second
    rw [other (differs hereF)] at first
    rw [other (differs hereG)] at second
    exact before m n first second

/-- Whoever leaves and subscribes again goes to the end of the row. -/
theorem leave_take [DecidableEq η] (seated : Seated history row handlers) (h : η) :
    Seated (history ++ [.leave ⟨row, h⟩] ++ [.take ⟨row, h⟩]) row
      (handlers.filter (· ≠ h) ++ [h]) :=
  (seated.leave h).take_of_not_mem (by simp)

theorem unique (seated : Seated history row handlers) {handlers' : List η}
    (seated' : Seated history row handlers') : handlers = handlers' := by
  have perm : handlers.Perm handlers' :=
    (List.perm_ext_iff_of_nodup seated.nodup seated'.nodup).mpr fun h =>
      (seated.exact h).trans (seated'.exact h).symm
  refine perm.eq_of_pairwise ?_ seated.ordered seated'.ordered
  intro g h hereG hereH before after
  obtain ⟨m, first⟩ := (seated.exact g).mp hereG
  obtain ⟨n, second⟩ := (seated'.exact h).mp hereH
  exact absurd (before m n first second) (Nat.lt_asymm (after n m second first))

end Seated

namespace Bus

section Rolls

variable {κ' : Type} [DecidableEq κ'] {subscriptions : List (Subscription κ' η)}
variable {kind other : κ'} {handler : η} {now : Nat}

def roll (kind : κ') (subscriptions : List (Subscription κ' η)) : List η :=
  (subscriptions.filter fun s => s.kind = kind).map Subscription.handler

theorem mem_roll : handler ∈ roll kind subscriptions ↔
    ∃ s ∈ subscriptions, s.kind = kind ∧ s.handler = handler := by
  simp [roll, and_assoc]

variable [DecidableEq η]

theorem roll_subscribe_of_mem (here : handler ∈ roll kind subscriptions) :
    roll kind (subscribe subscriptions kind handler now) = roll kind subscriptions := by
  rw [subscribe, if_pos (by simpa using mem_roll.mp here)]

theorem roll_subscribe_of_not_mem (absent : handler ∉ roll kind subscriptions) :
    roll kind (subscribe subscriptions kind handler now) =
      roll kind subscriptions ++ [handler] := by
  rw [subscribe, if_neg (by simpa using mt mem_roll.mpr absent)]
  simp [roll]

theorem roll_subscribe_of_ne (differs : kind ≠ other) :
    roll other (subscribe subscriptions kind handler now) = roll other subscriptions := by
  rw [subscribe]
  split
  · rfl
  · simp [roll, differs]

theorem roll_unsubscribe :
    roll kind (unsubscribe subscriptions kind handler) =
      (roll kind subscriptions).filter (· ≠ handler) := by
  rw [roll, unsubscribe, roll, List.filter_filter, List.filter_map, List.filter_filter]
  refine congrArg _ (List.filter_congr fun s _ => ?_)
  by_cases own : s.kind = kind <;> simp [own]

theorem roll_unsubscribe_of_ne (differs : kind ≠ other) :
    roll other (unsubscribe subscriptions kind handler) = roll other subscriptions := by
  rw [roll, unsubscribe, List.filter_filter, roll]
  refine congrArg _ (List.filter_congr fun s _ => ?_)
  by_cases own : s.kind = other <;> simp [own, Ne.symm differs]

theorem length_subscribe_le :
    (subscribe subscriptions kind handler now).length ≤ subscriptions.length + 1 := by
  rw [subscribe]
  split <;> simp

theorem length_unsubscribe_le :
    (unsubscribe subscriptions kind handler).length ≤ subscriptions.length :=
  List.length_filter_le ..

end Rolls

variable [DecidableEq κ]

def inRow (b : Bus κ η) : Option κ → List η
  | some kind => roll kind b.typed
  | none => roll () b.wild

theorem listeners_eq (kind : κ) (b : Bus κ η) :
    b.listeners kind = b.inRow (some kind) ++ b.inRow none := by
  have everyone : (b.wild.filter fun s => s.kind = ()) = b.wild :=
    List.filter_eq_self.mpr fun _ _ => decide_eq_true rfl
  rw [listeners, inRow, inRow, roll, roll, everyone]

variable [DecidableEq η]

def after (history : List (Booking κ η)) : Bus κ η :=
  history.foldl (fun b booking => booking.apply b) empty

variable (history : List (Booking κ η))

theorem after_snoc (r : Booking κ η) : after (history ++ [r]) = r.apply (after history) := by
  simp [after]

theorem after_built : (after history : Bus κ η).Built := by
  induction history using List.reverseRecOn with
  | nil => exact .empty
  | append_singleton past r built =>
    rw [after_snoc]
    match r with
    | .take ⟨some kind, handler⟩ => exact built.on kind handler
    | .take ⟨none, handler⟩ => exact built.onAny handler
    | .leave ⟨some kind, handler⟩ => exact built.off kind handler
    | .leave ⟨none, handler⟩ => exact built.offAny handler

theorem length_after_le :
    (after history).typed.length ≤ history.length ∧
      (after history).wild.length ≤ history.length := by
  induction history using List.reverseRecOn with
  | nil => exact ⟨Nat.le_refl 0, Nat.le_refl 0⟩
  | append_singleton past r few =>
    rw [after_snoc, List.length_append, List.length_singleton]
    have more := And.intro (Nat.le_succ_of_le few.1) (Nat.le_succ_of_le few.2)
    match r with
    | .take ⟨some kind, handler⟩ =>
      exact ⟨Nat.le_trans length_subscribe_le (Nat.succ_le_succ few.1), more.2⟩
    | .take ⟨none, handler⟩ =>
      exact ⟨more.1, Nat.le_trans length_subscribe_le (Nat.succ_le_succ few.2)⟩
    | .leave ⟨some kind, handler⟩ => exact ⟨Nat.le_trans length_unsubscribe_le more.1, more.2⟩
    | .leave ⟨none, handler⟩ => exact ⟨more.1, Nat.le_trans length_unsubscribe_le more.2⟩

theorem inRow_apply (b : Bus κ η) (row : Option κ) (h : η) :
    (h ∈ b.inRow row → ((Booking.take ⟨row, h⟩).apply b).inRow row = b.inRow row) ∧
    (h ∉ b.inRow row → ((Booking.take ⟨row, h⟩).apply b).inRow row = b.inRow row ++ [h]) ∧
    ((Booking.leave ⟨row, h⟩).apply b).inRow row = (b.inRow row).filter (· ≠ h) := by
  cases row with
  | some kind => exact ⟨roll_subscribe_of_mem, roll_subscribe_of_not_mem, roll_unsubscribe⟩
  | none => exact ⟨roll_subscribe_of_mem, roll_subscribe_of_not_mem, roll_unsubscribe⟩

theorem inRow_apply_of_ne (b : Bus κ η) {row row' : Option κ} (differs : row ≠ row') (h : η) :
    ((Booking.take ⟨row, h⟩).apply b).inRow row' = b.inRow row' ∧
    ((Booking.leave ⟨row, h⟩).apply b).inRow row' = b.inRow row' := by
  match row, row' with
  | some kind, some kind' =>
    have differs : kind ≠ kind' := fun same => differs (congrArg some same)
    exact ⟨roll_subscribe_of_ne differs, roll_unsubscribe_of_ne differs⟩
  | some kind, none => exact ⟨rfl, rfl⟩
  | none, some kind => exact ⟨rfl, rfl⟩
  | none, none => exact absurd rfl differs

/-- After a history, a row of the bus holds those whom the history seats in it. -/
theorem seated_after (row : Option κ) : Seated history row ((after history).inRow row) := by
  induction history using List.reverseRecOn with
  | nil =>
    cases row with
    | some kind => exact .nil _
    | none => exact .nil _
  | append_singleton past r seated =>
    rw [after_snoc]
    match r with
    | .take ⟨row', h⟩ =>
      by_cases own : row' = row
      · obtain ⟨again, anew, -⟩ := inRow_apply (after past) row h
        subst own
        by_cases here : h ∈ (after past).inRow row'
        · rw [again here]
          exact seated.take_of_mem here
        · rw [anew here]
          exact seated.take_of_not_mem here
      · rw [(inRow_apply_of_ne _ own h).1]
        exact seated.append_of_ne (by simp [own]) (by simp)
    | .leave ⟨row', h⟩ =>
      by_cases own : row' = row
      · subst own
        rw [(inRow_apply _ _ h).2.2]
        exact seated.leave h
      · rw [(inRow_apply_of_ne _ own h).2]
        exact seated.append_of_ne (by simp) (by simp [own])

end Bus

inductive Notice (η E : Type) where
  | called (handler : η) (event : E) (thrown : Option Thrown)
  | reported (thrown : Thrown) (event : E)

/-- The notices of one call: whatever the handler throws is reported at once. -/
def Notice.ofCall (event : E) (call : η × Option Thrown) : List (Notice η E) :=
  .called call.1 event call.2 :: call.2.toList.map (.reported · event)

namespace Audience

def noting (audience : Audience κ η E β) : Audience κ η E (β × List (Notice η E)) where
  kindOf := audience.kindOf
  respond handler event := fun (bus, m, notices) =>
    match audience.respond handler event (bus, m) with
    | .ok _ (bus, m) => .ok () (bus, m, notices ++ [.called handler event none])
    | .error thrown (bus, m) =>
      .error thrown (bus, m, notices ++ [.called handler event (some thrown)])
  onError thrown event := fun (bus, m, notices) =>
    match audience.onError thrown event (bus, m) with
    | .ok _ (bus, m) => .ok () (bus, m, notices ++ [.reported thrown event])
    | .error thrown' (bus, m) => .error thrown' (bus, m, notices ++ [.reported thrown event])

variable {audience : Audience κ η E β}

theorem Considerate.noting (considerate : audience.Considerate) : audience.noting.Considerate := by
  constructor
  · intro handler event bus m
    have kept := considerate.respond handler event bus m.1
    simp only [Audience.noting]
    cases response : audience.respond handler event (bus, m.1) with
    | ok _ s => rwa [response] at kept
    | error thrown s => rwa [response] at kept
  · intro thrown event bus m
    obtain ⟨m', taken⟩ := considerate.onError thrown event bus m.1
    exact ⟨_, by simp only [Audience.noting, taken]; rfl⟩

theorem dispatch_noting (audience : Audience κ η E β) (handler : η) (event : E) (bus : Bus κ η)
    (m : β) (notices : List (Notice η E)) : ∃ thrown,
    (Outcome.state (audience.noting.dispatch handler event (bus, m, notices))).2 =
      ((Outcome.state (audience.dispatch handler event (bus, m))).2,
        notices ++ Notice.ofCall event (handler, thrown)) := by
  simp only [dispatch, noting]
  cases audience.respond handler event (bus, m) with
  | ok _ s => exact ⟨none, rfl⟩
  | error thrown s =>
    obtain ⟨bus, m⟩ := s
    refine ⟨some thrown, ?_⟩
    cases reported : audience.onError thrown event (bus, m) <;>
      simp [reported, Notice.ofCall, Outcome.state]

theorem heard_noting (audience : Audience κ η E β) (event : E) (bus : Bus κ η) (handlers : List η)
    (m : β) (notices : List (Notice η E)) :
    ∃ calls : List (η × Option Thrown), calls.map Prod.fst = handlers ∧
      audience.noting.heard bus (handlers.map (·, event)) (m, notices) =
        (audience.heard bus (handlers.map (·, event)) m,
          notices ++ calls.flatMap (Notice.ofCall event)) := by
  induction handlers generalizing m notices with
  | nil => exact ⟨[], rfl, by simp⟩
  | cons handler rest ih =>
    obtain ⟨thrown, first⟩ := audience.dispatch_noting handler event bus m notices
    obtain ⟨calls, same, onward⟩ := ih
      (Outcome.state (audience.dispatch handler event (bus, m))).2
      (notices ++ Notice.ofCall event (handler, thrown))
    refine ⟨(handler, thrown) :: calls, by rw [List.map_cons, same], ?_⟩
    rw [List.flatMap_cons, ← List.append_assoc]
    simp only [heard, List.map_cons, List.foldl_cons, first] at onward ⊢
    exact onward

variable [DecidableEq κ] [DecidableEq η]

/-- After any history of subscribing and unsubscribing, an event is handed to those seated in the
row of its kind and then to those in the row of all kinds, and whatever a handler throws is reported
once, before the next handler is called. Subscribing again leaves a row as it is, and whoever leaves
and comes back goes to its end. -/
theorem Considerate.emit_delivers (considerate : audience.Considerate)
    (history : List (Booking κ η)) (rounds : Nat) (enough : history.length < rounds) (event : E)
    (m : β) :
    (∃ (typed wild : List η) (calls : List (η × Option Thrown)) (m' : β),
      Seated history (some (audience.kindOf event)) typed ∧ Seated history none wild ∧
      calls.map Prod.fst = typed ++ wild ∧ (∀ h ∈ typed, h ∈ wild → (typed ++ wild).count h = 2) ∧
      audience.emit rounds event (Bus.after history, m) = .ok () (Bus.after history, m') ∧
      audience.noting.emit rounds event (Bus.after history, m, []) =
        .ok () (Bus.after history, m', calls.flatMap (Notice.ofCall event))) ∧
    ∀ row handlers, Seated history row handlers → ∀ h ∈ handlers,
      Seated (history ++ [.take ⟨row, h⟩]) row handlers ∧
      Seated (history ++ [.leave ⟨row, h⟩] ++ [.take ⟨row, h⟩]) row
        (handlers.filter (· ≠ h) ++ [h]) := by
  refine ⟨?_, fun row handlers seated h here => ⟨seated.take_of_mem here, seated.leave_take h⟩⟩
  have built := Bus.after_built history
  have few := Bus.length_after_le history
  have few := And.intro (Nat.lt_of_le_of_lt few.1 enough) (Nat.lt_of_le_of_lt few.2 enough)
  have typed := Bus.seated_after history (some (audience.kindOf event))
  have wild := Bus.seated_after history none
  obtain ⟨calls, called, noted⟩ := audience.heard_noting event (Bus.after history)
    ((Bus.after history).listeners (audience.kindOf event)) m []
  rw [List.nil_append] at noted
  refine ⟨_, _, calls, _, typed, wild, called.trans (Bus.listeners_eq ..), ?_,
    considerate.emit_eq built rounds few event m, ?_⟩
  · intro h first second
    rw [List.count_append, typed.nodup.count, wild.nodup.count, if_pos first, if_pos second]
  · rw [considerate.noting.emit_eq built rounds few event]
    exact congrArg (fun memory => EStateM.Result.ok () (Bus.after history, memory)) noted

def throwingTwo : Audience String Nat String Unit where
  kindOf := id
  respond handler _ := fun s => if handler = 2 then .error .undefined s else .ok () s
  onError _ _ := fun s => .ok () s

theorem throwingTwo_considerate : throwingTwo.Considerate := by
  refine ⟨fun handler event bus m => ?_, fun _ _ _ m => ⟨m, rfl⟩⟩
  simp only [throwingTwo]
  split <;> rfl

/-- Handler one moves behind handler two and listens to everything besides, handler two subscribes
again, and handler three waits for something else. -/
def crowding : List (Booking String Nat) :=
  [.take ⟨some "run", 1⟩, .take ⟨some "run", 2⟩, .take ⟨none, 1⟩, .leave ⟨some "run", 1⟩,
    .take ⟨some "run", 1⟩, .take ⟨some "run", 2⟩, .take ⟨some "stop", 3⟩, .leave ⟨none, 7⟩]

theorem emit_delivers_crowding : throwingTwo.Considerate ∧ crowding.length < 9 ∧
    ∃ calls : List (Nat × Option Thrown), calls.map Prod.fst = [2, 1, 1] ∧
      throwingTwo.noting.emit 9 "run" (Bus.after crowding, (), []) =
        .ok () (Bus.after crowding, (), calls.flatMap (Notice.ofCall "run")) := by
  refine ⟨throwingTwo_considerate, by decide, ?_⟩
  obtain ⟨⟨typed, wild, calls, _, first, second, called, _, _, noted⟩, _⟩ :=
    throwingTwo_considerate.emit_delivers crowding 9 (by decide) "run" ()
  have first : typed = [2, 1] := first.unique (Bus.seated_after crowding (some "run"))
  have second : wild = [1] := second.unique (Bus.seated_after crowding none)
  exact ⟨calls, by rw [called, first, second]; rfl, noted⟩

/-- Handler two throws, and is reason enough to take handler one off. -/
def ousting : Audience String Nat String Unit :=
  { throwingTwo with onError := fun _ _ s => .ok () (s.1.off "run" 1, s.2) }

def queueing : List (Booking String Nat) := [.take ⟨some "run", 2⟩, .take ⟨some "run", 1⟩]

/-- A listener that takes a handler off before its turn keeps the event from it; and what is thrown
by two calls is reported twice, though it is the same. -/
theorem emit_delivers_unevenly :
    (ousting.Quiet ∧ Seated queueing (some "run") [2, 1] ∧
      ∃ bus, ousting.noting.emit 3 "run" (Bus.after queueing, (), []) =
          .ok () (bus, (), [.called 2 "run" (some .undefined), .reported .undefined "run"]) ∧
        bus.inRow (some "run") = [2]) ∧
    let twice : List (Booking String Nat) := [.take ⟨some "run", 2⟩, .take ⟨none, 2⟩]
    throwingTwo.Considerate ∧
      throwingTwo.noting.emit 3 "run" (Bus.after twice, (), []) = .ok () (Bus.after twice, (),
        [.called 2 "run" (some .undefined), .reported .undefined "run",
          .called 2 "run" (some .undefined), .reported .undefined "run"]) := by
  have quiet : ousting.Quiet := ⟨throwingTwo_considerate.respond, fun _ _ _ => ⟨_, rfl⟩⟩
  have seated : Seated queueing (some "run") [2, 1] := Bus.seated_after queueing (some "run")
  exact ⟨⟨quiet, seated, _, rfl, rfl⟩, throwingTwo_considerate, rfl⟩

end Audience
end SplitTraversal
