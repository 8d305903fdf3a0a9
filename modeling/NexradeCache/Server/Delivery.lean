import Mathlib.Data.Finset.Card
import Mathlib.Data.List.Perm.Basic
import NexradeCache.Lib.Trace
import NexradeCache.Server.PubSub

/-!
# What is published is delivered

`Exact` is what publish and subscribe promises after an event: the counts of the broker are those of the
connections, a connection gets a message for each of its subscriptions that matches, and it leaves only when it
has none. `Fits` is when an event keeps that, in a state where it held.
-/

namespace NexradeCache

open Trace

namespace Broker

namespace World

/-! ## Exact delivery -/

/-- The connections that are subscribed. -/
def subscribers (w : World) (t : Target) : Finset Nat := (Finset.range w.accepted).filter fun i => t ∈ (w.conns i).targets

/-- What relays have for the connection. -/
def queued (w : World) (i : Nat) : List Message := (w.relays.filter (·.conn = i)).flatMap Relay.queue

/-- The targets of the relays of the connection that the broker reaches. -/
def relaying (w : World) (i : Nat) : List Target := (w.relays.filter fun r => r.conn = i && w.live r).map Relay.target

/-- What an event leaves. -/
structure Exact (e : Event) (w : World) : Prop where
  counts : ∀ t, (step e w).broker.counts t = ((step e w).subscribers t).card
  /-- What is due is delivered, or on its way, and nothing else. -/
  due : ∀ i, ((step e w).conns i).isOpen = true →
    (((step e w).conns i).delivered ++ ((step e w).conns i).inbox ++ (step e w).queued i).Perm ((step e w).conns i).due
  arrives : ∀ i, (step e w).idle i = true → ∃ events : List Event, (∀ e' ∈ events, e'.moves = true) ∧
    ((run step events (step e w)).conns i).delivered.Perm ((step e w).conns i).due
  /-- Unsubscribing leaves the mode only when nothing is left, and all is delivered. -/
  leaves : ∀ i, e = .work i → (w.conns i).isOpen = true → ((step e w).conns i).isOpen = false →
    (w.conns i).targets = [] ∧ (w.conns i).delivered.Perm (w.conns i).due

/-- Only what a connection is subscribed to is unsubscribed, or what nobody is subscribed to; nothing is
published to a relay of an earlier subscription; no connection goes that is subscribed; and UNSUBSCRIBE does
not end one with messages on their way. -/
def Fits (e : Event) (w : World) : Prop :=
  match e with
  | .work i =>
    match (w.conns i).work with
    | .unsubscribe t :: _ => t ∉ (w.conns i).targets → w.broker.counts t = 0
    | .check :: _ =>
      (w.conns i).channels false = [] → (w.conns i).channels true = [] ∧ (w.conns i).inbox = [] ∧ w.queued i = []
    | _ => True
  | .disconnect i => w.idle i = true → (w.conns i).targets = []
  | .request i args =>
    w.idle i = true → (w.conns i).subscribing = true → (cmdName args = "QUIT" ∨ cmdName args = "RESET") →
      (w.conns i).targets = []
  | .publish channel _ =>
    ∀ i, (w.conns i).isOpen = true → ∀ t, t.covers channel = true →
      (w.relaying i).count t ≤ (w.conns i).targets.count t
  | _ => True

end World

/-! ## Subscriptions of a connection -/

namespace Subscriber

variable {c : Subscriber} {t u : Target}

@[simp] theorem mem_targets : t ∈ c.targets ↔ t.2 ∈ c.channels t.1 := by
  obtain ⟨pattern, name⟩ := t
  cases pattern <;> simp [targets]

theorem targets_eq_nil : c.targets = [] ↔ c.channels false = [] ∧ c.channels true = [] := by
  simp [targets]

theorem mem_add : u ∈ (c.add t).targets ↔ u = t ∨ u ∈ c.targets := by
  obtain ⟨kind, name⟩ := t
  obtain ⟨kind', name'⟩ := u
  by_cases same : kind' = kind
  · subst same
    simp [add, or_comm]
  · simp [add, same]

theorem mem_drop : u ∈ (c.drop t).targets ↔ u ≠ t ∧ u ∈ c.targets := by
  obtain ⟨kind, name⟩ := t
  obtain ⟨kind', name'⟩ := u
  by_cases same : kind' = kind
  · subst same
    simp [drop, and_comm]
  · simp [drop, same]

theorem nodup_targets (h : ∀ b, (c.channels b).Nodup) : c.targets.Nodup := by
  unfold targets
  rw [List.nodup_append]
  refine ⟨(h false).map fun a b eq => (Prod.mk.inj eq).2, (h true).map fun a b eq => (Prod.mk.inj eq).2, ?_⟩
  intro a left b right
  obtain ⟨-, -, rfl⟩ := List.mem_map.1 left
  obtain ⟨-, -, rfl⟩ := List.mem_map.1 right
  simp

theorem nodup_add (h : ∀ b, (c.channels b).Nodup) (new : t.2 ∉ c.channels t.1) (b : Bool) : ((c.add t).channels b).Nodup := by
  by_cases same : b = t.1
  · subst same
    simp only [add, Function.update_self]
    exact (h t.1).append (List.nodup_singleton _) (by simpa using new)
  · simpa [add, same] using h b

theorem nodup_drop (h : ∀ b, (c.channels b).Nodup) (b : Bool) : ((c.drop t).channels b).Nodup := by
  by_cases same : b = t.1
  · subst same
    simp only [drop, Function.update_self]
    exact (h t.1).filter _
  · simpa [drop, same] using h b

end Subscriber

namespace World

/-! ## Subscribers -/

section
variable (w w' : World) {i : Nat} {t : Target}

variable {w} in
theorem mem_subscribers {j : Nat} : j ∈ w.subscribers t ↔ j < w.accepted ∧ t ∈ (w.conns j).targets := by
  unfold subscribers
  rw [Finset.mem_filter, Finset.mem_range]

theorem subscribers_same (accepted : w'.accepted = w.accepted)
    (same : ∀ j, t ∈ (w'.conns j).targets ↔ t ∈ (w.conns j).targets) : w'.subscribers t = w.subscribers t := by
  ext j
  rw [mem_subscribers, mem_subscribers, accepted, same]

theorem subscribers_join (accepted : w'.accepted = w.accepted) (there : i < w.accepted)
    (others : ∀ j, j ≠ i → w'.conns j = w.conns j) (joined : t ∈ (w'.conns i).targets) :
    w'.subscribers t = insert i (w.subscribers t) := by
  ext j
  rw [Finset.mem_insert, mem_subscribers, mem_subscribers, accepted]
  by_cases same : j = i
  · subst same
    exact ⟨fun _ => .inl rfl, fun _ => ⟨there, joined⟩⟩
  · rw [others j same]
    simp [same]

theorem subscribers_part (accepted : w'.accepted = w.accepted) (others : ∀ j, j ≠ i → w'.conns j = w.conns j)
    (parted : t ∉ (w'.conns i).targets) : w'.subscribers t = (w.subscribers t).erase i := by
  ext j
  rw [Finset.mem_erase, mem_subscribers, mem_subscribers, accepted]
  by_cases same : j = i
  · subst same
    simp [parted]
  · rw [others j same]
    simp [same]

end

/-! ## Relays -/

section
variable {w w' : World} {i : Nat} {t : Target}

theorem mem_relaying : t ∈ w.relaying i ↔ ∃ r ∈ w.relays, r.conn = i ∧ w.live r = true ∧ r.target = t := by
  simp [relaying, and_assoc]

theorem mem_relaying_of_routes (senders : w'.broker.senders = w.broker.senders)
    (routes : w'.relays.map Relay.route = w.relays.map Relay.route) (mem : t ∈ w.relaying i) : t ∈ w'.relaying i := by
  obtain ⟨r, inside, conn, live, target⟩ := mem_relaying.1 mem
  have there : r.route ∈ w'.relays.map Relay.route := by
    rw [routes]
    exact List.mem_map_of_mem inside
  obtain ⟨r', inside', route⟩ := List.mem_map.1 there
  simp only [Relay.route, Prod.mk.injEq] at route
  refine mem_relaying.2 ⟨r', inside', route.1.trans conn, ?_, route.2.1.trans target⟩
  simpa [World.live, senders, route.2.1, route.2.2] using live

theorem count_queued_publish (channel payload : Bytes) (m : Message) :
    ((w.publish channel payload).queued i).count m =
      (w.queued i).count m +
        (((w.relaying i).filter (Target.covers channel)).map fun t => Message.mk t channel payload).count m := by
  simp only [queued, relaying, publish]
  induction w.relays with
  | nil => rfl
  | cons r rs ih =>
    by_cases conn : r.conn = i <;> cases live : w.live r <;> cases covers : r.target.covers channel <;>
      simp_all [List.count_append, List.count_cons] <;> omega

theorem count_queued_set {rs : List Relay} {k : Nat} {conn : Nat} {target : Target} {sender : Nat} {m : Message}
    {queue : List Message} (found : rs[k]? = some ⟨conn, target, sender, m :: queue⟩) (m' : Message) :
    (((rs.set k ⟨conn, target, sender, queue⟩).filter (·.conn = i)).flatMap Relay.queue).count m' +
        (if conn = i then [m] else []).count m' =
      ((rs.filter (·.conn = i)).flatMap Relay.queue).count m' := by
  induction rs generalizing k with
  | nil => simp at found
  | cons r rs ih =>
    cases k with
    | zero =>
      simp only [List.getElem?_cons_zero, Option.some.injEq] at found
      subst found
      by_cases same : conn = i <;> simp [same, List.count_append, List.count_cons]
    | succ k =>
      have ih := ih found
      by_cases same : r.conn = i <;> simp [same, List.count_append] <;> simp at ih <;> omega

end

/-! ## What the steps keep -/

/-- A subscription has a relay that the broker reaches; it may have others. -/
structure Inv (w : World) : Prop where
  bound : ∀ i, (w.conns i).isOpen = true → i < w.accepted
  closed : ∀ i, (w.conns i).isOpen = false →
    (w.conns i).targets = [] ∧ (w.conns i).work = [] ∧ (w.conns i).subscribing = false
  modes : ∀ i, (w.conns i).isOpen = true → (w.conns i).subscribing = false →
    (w.conns i).targets = [] ∧ (w.conns i).work = [] ∧ (w.conns i).due = []
  nodup : ∀ i b, ((w.conns i).channels b).Nodup
  counts : ∀ t, w.broker.counts t = (w.subscribers t).card
  relays : ∀ r ∈ w.relays, r.conn < w.accepted
  relayed : ∀ i t, t ∈ (w.conns i).targets → t ∈ w.relaying i
  due : ∀ i, (w.conns i).isOpen = true →
    ((w.conns i).delivered ++ (w.conns i).inbox ++ w.queued i).Perm (w.conns i).due

theorem Inv.new : Inv .new where
  bound i h := by simp [World.new, Subscriber.close] at h
  closed i _ := by simp [World.new, Subscriber.close, Subscriber.targets]
  modes i h := by simp [World.new, Subscriber.close] at h
  nodup i b := by simp [World.new, Subscriber.close]
  counts t := by simp [World.new, PubSub.new, subscribers]
  relays r mem := by simp [World.new] at mem
  relayed i t mem := by simp [World.new, Subscriber.close] at mem
  due i h := by simp [World.new, Subscriber.close] at h

section
variable {w : World} {i : Nat}

@[simp] theorem put_conns (w : World) (i j : Nat) (c : Subscriber) :
    (w.put i c).conns j = if j = i then c else w.conns j := by
  simp [put, Function.update_apply]

@[simp] theorem put_queued (w : World) (i j : Nat) (c : Subscriber) : (w.put i c).queued j = w.queued j := rfl

theorem Inv.change {w' : World} (h : Inv w) (accepted : w'.accepted = w.accepted)
    (others : ∀ j, j ≠ i → w'.conns j = w.conns j ∧ (w'.queued j).Perm (w.queued j))
    (bound : i < w.accepted) (closed : (w'.conns i).isOpen = false →
      (w'.conns i).targets = [] ∧ (w'.conns i).work = [] ∧ (w'.conns i).subscribing = false)
    (modes : (w'.conns i).isOpen = true → (w'.conns i).subscribing = false →
      (w'.conns i).targets = [] ∧ (w'.conns i).work = [] ∧ (w'.conns i).due = [])
    (nodup : ∀ b, ((w'.conns i).channels b).Nodup) (counts : ∀ t, w'.broker.counts t = (w'.subscribers t).card)
    (relays : ∀ r ∈ w'.relays, r.conn < w.accepted)
    (relayed : ∀ j t, t ∈ (w'.conns j).targets → t ∈ w'.relaying j)
    (due : (w'.conns i).isOpen = true →
      ((w'.conns i).delivered ++ (w'.conns i).inbox ++ w'.queued i).Perm (w'.conns i).due) : Inv w' where
  bound j isOpen := by
    rw [accepted]
    by_cases same : j = i
    · exact same ▸ bound
    · exact h.bound j ((others j same).1 ▸ isOpen)
  closed j isClosed := by
    by_cases same : j = i
    · exact same ▸ closed (same ▸ isClosed)
    · rw [(others j same).1] at isClosed ⊢
      exact h.closed j isClosed
  modes j isOpen plain := by
    by_cases same : j = i
    · exact same ▸ modes (same ▸ isOpen) (same ▸ plain)
    · rw [(others j same).1] at isOpen plain ⊢
      exact h.modes j isOpen plain
  nodup j b := by
    by_cases same : j = i
    · exact same ▸ nodup b
    · rw [(others j same).1]
      exact h.nodup j b
  counts := counts
  relays r mem := accepted.symm ▸ relays r mem
  relayed := relayed
  due j isOpen := by
    by_cases same : j = i
    · exact same ▸ due (same ▸ isOpen)
    · rw [(others j same).1] at isOpen ⊢
      exact ((others j same).2.append_left _).trans (h.due j isOpen)

/-- A connection does something that is not about its subscriptions. -/
theorem Inv.put (h : Inv w) {c : Subscriber} (opened : (w.conns i).isOpen = true) (stays : c.isOpen = true)
    (mode : c.subscribing = true) (channels : c.channels = (w.conns i).channels) (due : c.due = (w.conns i).due)
    (taken : c.delivered ++ c.inbox = (w.conns i).delivered ++ (w.conns i).inbox) : Inv (w.put i c) := by
  have same (j : Nat) (t : Target) : t ∈ ((w.put i c).conns j).targets ↔ t ∈ (w.conns j).targets := by
    by_cases same : j = i <;> simp [same, channels]
  have own : (w.put i c).conns i = c := by simp
  refine h.change (i := i) rfl (fun j other => ⟨by simp [other], .refl _⟩) (h.bound i opened) ?_ ?_ ?_ ?_ h.relays ?_ ?_
  · intro isClosed
    rw [own, stays] at isClosed
    cases isClosed
  · intro _ plain
    rw [own, mode] at plain
    cases plain
  · intro b
    rw [own, channels]
    exact h.nodup i b
  · intro t
    rw [subscribers_same w (w.put i c) rfl fun j => same j t]
    exact h.counts t
  · exact fun j t mem => h.relayed j t ((same j t).1 mem)
  · intro _
    rw [own, taken, due]
    exact h.due i opened

/-- A connection goes that is not subscribed. -/
theorem Inv.close (h : Inv w) (opened : (w.conns i).isOpen = true) (none : (w.conns i).targets = []) :
    Inv (w.put i (w.conns i).close) := by
  have same (j : Nat) (t : Target) : t ∈ ((w.put i (w.conns i).close).conns j).targets ↔ t ∈ (w.conns j).targets := by
    by_cases same : j = i
    · subst same
      rw [none]
      simp [Subscriber.close]
    · simp [same]
  have own : (w.put i (w.conns i).close).conns i = (w.conns i).close := by simp
  refine h.change (i := i) rfl (fun j other => ⟨by simp [other], .refl _⟩) (h.bound i opened) ?_ ?_ ?_ ?_ h.relays ?_ ?_
  · intro _
    rw [own]
    exact ⟨rfl, rfl, rfl⟩
  · intro isOpen
    rw [own] at isOpen
    cases isOpen
  · intro b
    rw [own]
    exact List.nodup_nil
  · intro t
    rw [subscribers_same w (w.put i _) rfl fun j => same j t]
    exact h.counts t
  · exact fun j t mem => h.relayed j t ((same j t).1 mem)
  · intro isOpen
    rw [own] at isOpen
    cases isOpen

theorem PubSub.subscribe_counts (b : PubSub) (t u : Target) :
    (b.subscribe t).1.counts u = if u = t then b.counts t + 1 else b.counts u := by
  unfold PubSub.subscribe
  split <;> simp [Function.update_apply]

theorem PubSub.subscribe_sender (b : PubSub) (t : Target) : (b.subscribe t).1.senders t = some (b.subscribe t).2 := by
  unfold PubSub.subscribe
  split
  · assumption
  · simp

/-- No other sender changes, and none is dropped. -/
theorem PubSub.subscribe_senders {b : PubSub} {u : Target} {sender : Nat} (t : Target) (h : b.senders u = some sender) :
    (b.subscribe t).1.senders u = some sender := by
  unfold PubSub.subscribe
  split
  · exact h
  · rename_i none
    have other : u ≠ t := by
      rintro rfl
      rw [none] at h
      cases h
    simpa [other] using h

theorem PubSub.unsubscribe_counts (b : PubSub) (t u : Target) :
    (b.unsubscribe t).counts u = if u = t then b.counts t - 1 else b.counts u := by
  unfold PubSub.unsubscribe
  by_cases same : u = t <;> split_ifs <;> simp_all

/-- Only the sender of a target with no more subscriptions goes. -/
theorem PubSub.unsubscribe_senders (b : PubSub) (t u : Target) (other : u ≠ t ∨ b.counts t ≠ 1) :
    (b.unsubscribe t).senders u = b.senders u := by
  unfold PubSub.unsubscribe
  split_ifs with none last
  · rfl
  · have other : u ≠ t := other.resolve_right fun h => h last
    simp [other]
  · rfl

theorem Inv.subscribe (h : Inv w) {t : Target} {rest : List Work} (opened : (w.conns i).isOpen = true)
    (mode : (w.conns i).subscribing = true) (fresh : t ∉ (w.conns i).targets) :
    Inv { w.put i { (w.conns i).add t with work := rest } with
      broker := (w.broker.subscribe t).1, relays := w.relays ++ [⟨i, t, (w.broker.subscribe t).2, []⟩] } := by
  generalize eq : ({ w.put i { (w.conns i).add t with work := rest } with
      broker := (w.broker.subscribe t).1, relays := w.relays ++ [⟨i, t, (w.broker.subscribe t).2, []⟩] } : World) = w'
  have accepted : w'.accepted = w.accepted := by rw [← eq]; rfl
  have broker : w'.broker = (w.broker.subscribe t).1 := by rw [← eq]
  have relays : w'.relays = w.relays ++ [⟨i, t, (w.broker.subscribe t).2, []⟩] := by rw [← eq]
  have others (j : Nat) (other : j ≠ i) : w'.conns j = w.conns j := by simp [← eq, other]
  have own : w'.conns i = { (w.conns i).add t with work := rest } := by simp [← eq]
  have mem_own (u : Target) : u ∈ (w'.conns i).targets ↔ u = t ∨ u ∈ (w.conns i).targets := by
    rw [own]
    exact Subscriber.mem_add
  have queued (j : Nat) : w'.queued j = w.queued j := by
    by_cases same : i = j <;> simp [World.queued, relays, same]
  refine h.change accepted (fun j other => ⟨others j other, .of_eq (queued j)⟩) (h.bound i opened) ?_ ?_ ?_ ?_ ?_ ?_ ?_
  · intro isClosed
    rw [own] at isClosed
    exact absurd (opened.symm.trans isClosed) (by decide)
  · intro _ plain
    rw [own] at plain
    exact absurd (mode.symm.trans plain) (by decide)
  · rw [own]
    exact Subscriber.nodup_add (h.nodup i) (mt Subscriber.mem_targets.2 fresh)
  · intro u
    rw [broker, PubSub.subscribe_counts]
    by_cases same : u = t
    · subst same
      have new : i ∉ w.subscribers u := fun mem => fresh (mem_subscribers.1 mem).2
      rw [subscribers_join w w' accepted (h.bound i opened) others ((mem_own u).2 (.inl rfl)),
        Finset.card_insert_of_notMem new, if_pos rfl, h.counts u]
    · rw [subscribers_same w w' accepted, if_neg same, h.counts u]
      intro j
      by_cases here : j = i
      · rw [here, mem_own, or_iff_right same]
      · rw [others j here]
  · intro r mem
    rw [relays] at mem
    rcases List.mem_append.1 mem with old | new
    · exact h.relays r old
    · obtain rfl := List.mem_singleton.1 new
      exact h.bound i opened
  · -- The relays that were reached still are, and the new one is.
    have old (j : Nat) (u : Target) (mem : u ∈ (w.conns j).targets) : u ∈ w'.relaying j := by
      obtain ⟨r, inside, conn, live, target⟩ := mem_relaying.1 (h.relayed j u mem)
      refine mem_relaying.2 ⟨r, relays ▸ List.mem_append_left _ inside, conn, ?_, target⟩
      simp only [World.live, decide_eq_true_eq, broker] at live ⊢
      exact PubSub.subscribe_senders t live
    intro j u mem
    by_cases same : j = i
    · subst same
      rcases (mem_own u).1 mem with rfl | mem
      · refine mem_relaying.2 ⟨_, relays ▸ List.mem_append_right _ (List.mem_singleton_self _), rfl, ?_, rfl⟩
        simpa [World.live, broker] using PubSub.subscribe_sender w.broker u
      · exact old j u mem
    · exact old j u (others j same ▸ mem)
  · intro _
    rw [queued, own]
    exact h.due i opened

/-- Nobody loses a sender that it needs: the last subscription is the own one. -/
theorem Inv.unsubscribe (h : Inv w) {t : Target} {rest : List Work} (opened : (w.conns i).isOpen = true)
    (mode : (w.conns i).subscribing = true) (own_or_none : t ∉ (w.conns i).targets → w.broker.counts t = 0) :
    Inv { w.put i { (w.conns i).drop t with work := rest } with broker := w.broker.unsubscribe t } := by
  generalize eq : ({ w.put i { (w.conns i).drop t with work := rest } with broker := w.broker.unsubscribe t } : World) = w'
  have accepted : w'.accepted = w.accepted := by rw [← eq]; rfl
  have broker : w'.broker = w.broker.unsubscribe t := by rw [← eq]
  have relays : w'.relays = w.relays := by rw [← eq]; rfl
  have others (j : Nat) (other : j ≠ i) : w'.conns j = w.conns j := by simp [← eq, other]
  have own : w'.conns i = { (w.conns i).drop t with work := rest } := by simp [← eq]
  have mem_own (u : Target) : u ∈ (w'.conns i).targets ↔ u ≠ t ∧ u ∈ (w.conns i).targets := by
    rw [own]
    exact Subscriber.mem_drop
  have queued (j : Nat) : w'.queued j = w.queued j := by
    unfold World.queued
    rw [relays]
  refine h.change accepted (fun j other => ⟨others j other, .of_eq (queued j)⟩) (h.bound i opened) ?_ ?_ ?_ ?_ ?_ ?_ ?_
  · intro isClosed
    rw [own] at isClosed
    exact absurd (opened.symm.trans isClosed) (by decide)
  · intro _ plain
    rw [own] at plain
    exact absurd (mode.symm.trans plain) (by decide)
  · rw [own]
    exact Subscriber.nodup_drop (h.nodup i)
  · intro u
    rw [broker, PubSub.unsubscribe_counts]
    by_cases same : u = t
    · subst same
      rw [subscribers_part w w' accepted others fun mem => ((mem_own u).1 mem).1 rfl, if_pos rfl]
      by_cases subscribed : u ∈ (w.conns i).targets
      · rw [Finset.card_erase_of_mem (mem_subscribers.2 ⟨h.bound i opened, subscribed⟩), h.counts u]
      · have new : i ∉ w.subscribers u := fun mem => subscribed (mem_subscribers.1 mem).2
        rw [Finset.erase_eq_of_notMem new, ← h.counts u, own_or_none subscribed]
    · rw [subscribers_same w w' accepted, if_neg same, h.counts u]
      intro j
      by_cases here : j = i
      · rw [here, mem_own, and_iff_right same]
      · rw [others j here]
  · rw [relays]
    exact h.relays
  · intro j u mem
    have subscribed : u ∈ (w.conns j).targets := by
      by_cases same : j = i
      · subst same
        exact ((mem_own u).1 mem).2
      · exact others j same ▸ mem
    -- Where the sender goes, the one subscription is that of the connection itself.
    have kept : u ≠ t ∨ w.broker.counts t ≠ 1 := by
      by_contra lost
      push Not at lost
      obtain ⟨rfl, one⟩ := lost
      have here : u ∈ (w.conns i).targets := by
        by_contra absent
        rw [own_or_none absent] at one
        cases one
      rw [h.counts u, Finset.card_eq_one] at one
      obtain ⟨k, only⟩ := one
      have at_j : j ∈ w.subscribers u := by
        refine mem_subscribers.2 ⟨h.bound j ?_, subscribed⟩
        by_contra isClosed
        rw [(h.closed j (Bool.eq_false_iff.2 isClosed)).1] at subscribed
        cases subscribed
      have at_i : i ∈ w.subscribers u := mem_subscribers.2 ⟨h.bound i opened, here⟩
      rw [only, Finset.mem_singleton] at at_j at_i
      rw [at_j, ← at_i] at mem
      exact ((mem_own u).1 mem).1 rfl
    obtain ⟨r, inside, conn, live, rfl⟩ := mem_relaying.1 (h.relayed j u subscribed)
    refine mem_relaying.2 ⟨r, relays ▸ inside, conn, ?_, rfl⟩
    simp only [World.live, decide_eq_true_eq, broker] at live ⊢
    rw [PubSub.unsubscribe_senders w.broker t r.target kept]
    exact live
  · intro _
    rw [queued, own]
    exact h.due i opened

/-- A relay of each subscription, and no other. -/
theorem relaying_perm (h : Inv w) {channel : Bytes}
    (fits : ∀ t, t.covers channel = true → (w.relaying i).count t ≤ (w.conns i).targets.count t) :
    ((w.relaying i).filter (Target.covers channel)).Perm ((w.conns i).targets.filter (Target.covers channel)) := by
  refine List.perm_iff_count.2 fun t => ?_
  by_cases covers : t.covers channel = true
  · rw [List.count_filter covers, List.count_filter covers]
    refine le_antisymm (fits t covers) ?_
    by_cases subscribed : t ∈ (w.conns i).targets
    · rw [List.count_eq_one_of_mem (Subscriber.nodup_targets (h.nodup i)) subscribed]
      exact List.count_pos_iff.2 (h.relayed i t subscribed)
    · rw [List.count_eq_zero_of_not_mem subscribed]
      exact Nat.zero_le _
  · rw [List.count_eq_zero_of_not_mem, List.count_eq_zero_of_not_mem]
    all_goals exact fun mem => covers (List.mem_filter.1 mem).2

/-- A published message goes where it is due if and only if no other relay takes it. -/
theorem Inv.due_publish_iff (h : Inv w) (opened : (w.conns i).isOpen = true) (channel payload : Bytes) :
    (((w.publish channel payload).conns i).delivered ++ ((w.publish channel payload).conns i).inbox ++
        (w.publish channel payload).queued i).Perm ((w.publish channel payload).conns i).due ↔
      ∀ t, t.covers channel = true → (w.relaying i).count t ≤ (w.conns i).targets.count t := by
  have injective : Function.Injective fun t => Message.mk t channel payload := fun t u eq => (Message.mk.inj eq).1
  have before := List.perm_iff_count.1 (h.due i opened)
  have split : (((w.publish channel payload).conns i).delivered ++ ((w.publish channel payload).conns i).inbox ++
        (w.publish channel payload).queued i).Perm ((w.publish channel payload).conns i).due ↔
      ((w.relaying i).filter (Target.covers channel)).Perm ((w.conns i).targets.filter (Target.covers channel)) := by
    rw [← List.map_perm_map_iff injective, List.perm_iff_count, List.perm_iff_count]
    refine forall_congr' fun m => ?_
    have before := before m
    rw [List.count_append, List.count_append] at before ⊢
    rw [count_queued_publish]
    change (w.conns i).delivered.count m + (w.conns i).inbox.count m + _ = ((w.conns i).due ++ _).count m ↔ _
    rw [List.count_append, ← before]
    omega
  rw [split]
  constructor
  · intro perm t covers
    rw [← List.count_filter covers, ← List.count_filter (l := (w.conns i).targets) covers]
    exact (List.perm_iff_count.1 perm t).le
  · exact relaying_perm h

theorem Inv.publish (h : Inv w) {channel payload : Bytes}
    (fits : ∀ i, (w.conns i).isOpen = true → ∀ t, t.covers channel = true →
      (w.relaying i).count t ≤ (w.conns i).targets.count t) : Inv (w.publish channel payload) where
  bound := h.bound
  closed := h.closed
  modes i isOpen plain := by
    obtain ⟨targets, work, due⟩ := h.modes i isOpen plain
    refine ⟨targets, work, ?_⟩
    change (w.conns i).due ++ ((w.conns i).targets.filter _).map _ = []
    rw [targets, due]
    rfl
  nodup := h.nodup
  counts := h.counts
  relays r mem := by
    obtain ⟨r', inside, rfl⟩ := List.mem_map.1 mem
    have bound := h.relays r' inside
    split
    · exact bound
    · exact bound
  relayed i t mem := by
    refine mem_relaying_of_routes (w := w) rfl ?_ (h.relayed i t mem)
    simp only [World.publish, List.map_map]
    refine List.map_congr_left fun r _ => ?_
    simp only [Function.comp_apply]
    split <;> rfl
  due i opened := (h.due_publish_iff opened channel payload).2 (fits i opened)

theorem Inv.forward (h : Inv w) (k : Nat) : Inv (w.forward k) := by
  unfold World.forward
  split
  · rename_i conn target sender m queue found
    have inside := List.mem_of_getElem? found
    have bound : conn < w.accepted := h.relays _ inside
    dsimp only
    generalize eq : ({ w.put conn (if (w.conns conn).isOpen then
        { w.conns conn with inbox := (w.conns conn).inbox ++ [m] } else w.conns conn) with
      relays := w.relays.set k ⟨conn, target, sender, queue⟩ } : World) = w'
    have accepted : w'.accepted = w.accepted := by rw [← eq]; rfl
    have broker : w'.broker = w.broker := by rw [← eq]; rfl
    have relays : w'.relays = w.relays.set k ⟨conn, target, sender, queue⟩ := by rw [← eq]
    have others (j : Nat) (other : j ≠ conn) : w'.conns j = w.conns j := by simp [← eq, other]
    have own : w'.conns conn = if (w.conns conn).isOpen then
        { w.conns conn with inbox := (w.conns conn).inbox ++ [m] } else w.conns conn := by simp [← eq]
    have same (j : Nat) (t : Target) : t ∈ (w'.conns j).targets ↔ t ∈ (w.conns j).targets := by
      by_cases here : j = conn
      · rw [here, own]
        split <;> exact Iff.rfl
      · rw [others j here]
    have queued (j : Nat) (m' : Message) :
        (w'.queued j).count m' + (if conn = j then [m] else []).count m' = (w.queued j).count m' := by
      unfold World.queued
      rw [relays]
      exact count_queued_set found m'
    refine h.change (i := conn) accepted (fun j other => ⟨others j other, ?_⟩) bound ?_ ?_ ?_ ?_ ?_ ?_ ?_
    · refine List.perm_iff_count.2 fun m' => ?_
      simpa [Ne.symm other] using queued j m'
    · intro isClosed
      rw [own] at isClosed ⊢
      split at isClosed
      · rename_i isOpen
        exact absurd (isOpen.symm.trans isClosed) (by decide)
      · rename_i isOpen
        rw [if_neg isOpen]
        exact h.closed conn isClosed
    · intro isOpen plain
      rw [own] at isOpen plain ⊢
      split_ifs at isOpen plain ⊢
      · exact h.modes conn isOpen plain
      · exact h.modes conn isOpen plain
    · intro b
      rw [own]
      split <;> exact h.nodup conn b
    · intro t
      rw [subscribers_same w w' accepted fun j => same j t, broker]
      exact h.counts t
    · intro r mem
      rw [relays] at mem
      rcases List.mem_or_eq_of_mem_set mem with old | rfl
      · exact h.relays r old
      · exact bound
    · intro j t mem
      refine mem_relaying_of_routes (by rw [broker]) ?_ (h.relayed j t ((same j t).1 mem))
      rw [relays, List.map_set]
      obtain ⟨inside, there⟩ := List.getElem?_eq_some_iff.1 found
      refine List.ext_getElem? fun n => ?_
      rw [List.getElem?_set]
      split
      · rename_i here
        subst here
        simp [inside, there, Relay.route]
      · rfl
    · intro isOpen
      have opened : (w.conns conn).isOpen = true := by
        rw [own] at isOpen
        split at isOpen <;> assumption
      rw [own, if_pos opened]
      refine List.perm_iff_count.2 fun m' => ?_
      have before := List.perm_iff_count.1 (h.due conn opened) m'
      have less := queued conn m'
      simp only [List.count_append, if_true] at before less ⊢
      omega
  · exact h

theorem Inv.connect (h : Inv w) : Inv { w.put w.accepted .new with accepted := w.accepted + 1 } := by
  have nobody : (w.conns w.accepted).targets = [] := by
    refine (h.closed _ (Bool.eq_false_iff.2 fun isOpen => ?_)).1
    exact Nat.lt_irrefl _ (h.bound _ isOpen)
  have same (j : Nat) (t : Target) : t ∈ ((w.put w.accepted .new).conns j).targets ↔ t ∈ (w.conns j).targets := by
    by_cases here : j = w.accepted
    · rw [here, nobody]
      simp [Subscriber.new]
    · simp [here]
  constructor
  case bound =>
    intro j isOpen
    by_cases here : j = w.accepted
    · exact here ▸ Nat.lt_succ_self _
    · exact Nat.lt_succ_of_lt (h.bound j (by simpa [here] using isOpen))
  case closed =>
    intro j isClosed
    by_cases here : j = w.accepted
    · simp [here, Subscriber.new] at isClosed
    · simpa [here] using h.closed j (by simpa [here] using isClosed)
  case modes =>
    intro j isOpen plain
    by_cases here : j = w.accepted
    · simp [here, Subscriber.new, Subscriber.targets]
    · simp only [put_conns, if_neg here] at isOpen plain ⊢
      exact h.modes j isOpen plain
  case nodup =>
    intro j b
    by_cases here : j = w.accepted
    · simp [here, Subscriber.new]
    · simpa [here] using h.nodup j b
  case counts =>
    intro t
    refine (h.counts t).trans (congrArg Finset.card (Finset.ext fun j => ?_))
    rw [mem_subscribers, mem_subscribers]
    refine ⟨fun ⟨bound, mem⟩ => ⟨Nat.lt_succ_of_lt bound, (same j t).2 mem⟩, fun ⟨bound, mem⟩ => ?_⟩
    have mem := (same j t).1 mem
    refine ⟨Nat.lt_of_le_of_ne (Nat.le_of_lt_succ bound) ?_, mem⟩
    rintro rfl
    rw [nobody] at mem
    cases mem
  case relays => exact fun r mem => Nat.lt_succ_of_lt (h.relays r mem)
  case relayed => exact fun j t mem => h.relayed j t ((same j t).1 mem)
  case due =>
    intro j isOpen
    by_cases here : j = w.accepted
    · subst here
      have none : w.relays.filter (·.conn = w.accepted) = [] := by
        refine List.filter_eq_nil_iff.2 fun r mem => ?_
        simpa using Nat.ne_of_lt (h.relays r mem)
      simp [Subscriber.new, World.queued, World.put, none]
    · simp only [put_conns, if_neg here] at isOpen ⊢
      exact h.due j isOpen

theorem Inv.opened (h : Inv w) {task : Work} {rest : List Work} (work : (w.conns i).work = task :: rest) :
    (w.conns i).isOpen = true ∧ (w.conns i).subscribing = true := by
  have opened : (w.conns i).isOpen = true := by
    by_contra isClosed
    rw [(h.closed i (Bool.eq_false_iff.2 isClosed)).2.1] at work
    cases work
  refine ⟨opened, ?_⟩
  by_contra plain
  rw [(h.modes i opened (Bool.eq_false_iff.2 plain)).2.1] at work
  cases work

theorem Inv.work (h : Inv w) (fits : Fits (.work i) w) : Inv (w.work i) := by
  unfold World.work
  unfold Fits at fits
  dsimp only at fits ⊢
  split
  · exact h
  · rename_i t rest work
    obtain ⟨opened, mode⟩ := h.opened work
    split
    · exact h.put opened opened mode rfl rfl rfl
    · rename_i fresh
      exact h.subscribe opened mode (mt Subscriber.mem_targets.1 fresh)
  · rename_i t rest work
    rw [work] at fits
    exact h.unsubscribe (h.opened work).1 (h.opened work).2 fits
  · rename_i rest work
    rw [work] at fits
    obtain ⟨opened, mode⟩ := h.opened work
    split
    · rename_i none
      exact h.close opened (Subscriber.targets_eq_nil.2 ⟨none, (fits none).1⟩)
    · exact h.put opened opened mode rfl rfl rfl

theorem Inv.request (h : Inv w) {args : List Resp} (opened : (w.conns i).isOpen = true)
    (fits : (w.conns i).subscribing = true → (cmdName args = "QUIT" ∨ cmdName args = "RESET") →
      (w.conns i).targets = []) : Inv (w.request i args) := by
  unfold World.request
  dsimp only
  split_ifs with _ plain _ _ quit
  · exact h.put opened opened rfl rfl rfl rfl
  · exact h
  · exact h.put opened opened (by simpa using plain) rfl rfl rfl
  · exact h.put opened opened (by simpa using plain) rfl rfl rfl
  · refine h.close opened (fits (by simpa using plain) ?_)
    simpa using quit
  · exact h

theorem Inv.write (h : Inv w) (i : Nat) : Inv (w.write i) := by
  unfold World.write
  dsimp only
  split
  · rename_i m inbox there
    split
    · rename_i reads
      have opened : (w.conns i).isOpen = true := by
        by_contra isClosed
        simp [(h.closed i (Bool.eq_false_iff.2 isClosed)).2.2] at reads
      refine h.put opened opened (by simp_all) rfl rfl ?_
      simp [there]
    · exact h
  · exact h

theorem idle_iff : w.idle i = true ↔ (w.conns i).isOpen = true ∧ (w.conns i).work = [] := by
  simp [idle]

theorem Inv.step (h : Inv w) {e : Event} (fits : Fits e w) : Inv (step e w) := by
  cases e with
  | connect => exact h.connect
  | request i args =>
    unfold World.step
    dsimp only
    split
    · rename_i idle
      exact h.request (idle_iff.1 idle).1 (fits idle)
    · exact h
  | work i => exact h.work fits
  | disconnect i =>
    unfold World.step
    dsimp only
    split
    · rename_i idle
      exact h.close (idle_iff.1 idle).1 (fits idle)
    · exact h
  | publish channel payload => exact h.publish fits
  | forward k => exact h.forward k
  | write i => exact h.write i

/-- A relay that has something has it for its connection. -/
theorem exists_forward (waiting : w.queued i ≠ []) (opened : (w.conns i).isOpen = true) :
    ∃ k m, (w.forward k).conns i = { w.conns i with inbox := (w.conns i).inbox ++ [m] } ∧
      ((w.forward k).queued i).length + 1 = (w.queued i).length := by
  obtain ⟨first, somewhere⟩ := List.exists_mem_of_ne_nil _ waiting
  obtain ⟨⟨conn, target, sender, queue⟩, filtered, mem⟩ := List.mem_flatMap.1 somewhere
  obtain ⟨inside, same⟩ := List.mem_filter.1 filtered
  obtain rfl : conn = i := by simpa using same
  obtain ⟨m, queue, rfl⟩ := List.exists_cons_of_ne_nil (List.ne_nil_of_mem (l := queue) mem)
  obtain ⟨k, found⟩ := List.mem_iff_getElem?.1 inside
  refine ⟨k, m, ?_, ?_⟩
  · simp [forward, found, opened]
  · have perm : ((w.forward k).queued conn ++ [m]).Perm (w.queued conn) := by
      refine List.perm_iff_count.2 fun m' => ?_
      have less := count_queued_set (i := conn) found m'
      simpa [forward, found, World.queued] using less
    simpa using perm.length_eq

/-- What is on its way to a connection arrives: a relay takes a message along, or the connection writes one. -/
theorem Inv.arrives (h : Inv w) (idle : w.idle i = true) {n : Nat}
    (size : 2 * (w.queued i).length + (w.conns i).inbox.length = n) :
    ∃ events : List Event, (∀ e ∈ events, e.moves = true) ∧
      ((run World.step events w).conns i).delivered.Perm (w.conns i).due := by
  induction n using Nat.strongRecOn generalizing w with
  | ind n ih =>
    obtain ⟨opened, work⟩ := idle_iff.1 idle
    have due := h.due i opened
    by_cases waiting : w.queued i = []
    · cases there : (w.conns i).inbox with
      | nil =>
        rw [waiting, there, List.append_nil, List.append_nil] at due
        exact ⟨[], by simp, due⟩
      | cons m inbox =>
        have mode : (w.conns i).subscribing = true := by
          by_contra plain
          rw [(h.modes i opened (Bool.eq_false_iff.2 plain)).2.2, there] at due
          simpa using due.length_eq
        have own : (w.write i).conns i =
            { w.conns i with inbox, delivered := (w.conns i).delivered ++ [m] } := by
          simp [World.write, there, mode, work]
        have same : (w.write i).queued i = w.queued i := by
          simp [World.write, there, mode, work]
        obtain ⟨events, moves, perm⟩ := ih (2 * ((w.write i).queued i).length +
            ((w.write i).conns i).inbox.length) (by
          rw [own, same, ← size, there]
          simp) (h.write i) (by simp [World.idle, own, opened, work]) rfl
        refine ⟨.write i :: events, by simpa [Event.moves] using moves, ?_⟩
        rw [own] at perm
        exact perm
    · obtain ⟨k, m, own, less⟩ := exists_forward waiting opened
      obtain ⟨events, moves, perm⟩ := ih (2 * ((w.forward k).queued i).length +
          ((w.forward k).conns i).inbox.length) (by
        rw [own, ← size, ← less]
        simp only [List.length_append, List.length_singleton]
        omega) (h.forward k) (by simp [World.idle, own, opened, work]) rfl
      refine ⟨.forward k :: events, by simpa [Event.moves] using moves, ?_⟩
      rw [own] at perm
      exact perm

/-- A connection that closes in subscribe mode closes at the end of an UNSUBSCRIBE. -/
theorem leaves_of_fits (h : Inv w) (fits : Fits (.work i) w) (opened : (w.conns i).isOpen = true)
    (left : ((w.work i).conns i).isOpen = false) :
    (w.conns i).targets = [] ∧ (w.conns i).delivered.Perm (w.conns i).due := by
  unfold World.work at left
  unfold Fits at fits
  dsimp only at fits left
  split at left
  · exact absurd (opened.symm.trans left) (by decide)
  · split at left <;> simp [Subscriber.add, opened] at left
  · simp [Subscriber.drop, opened] at left
  · rename_i rest work
    rw [work] at fits
    rw [put_conns, if_pos rfl] at left
    split at left
    · rename_i none
      obtain ⟨patterns, inbox, queued⟩ := fits none
      have due := h.due i opened
      rw [inbox, queued, List.append_nil, List.append_nil] at due
      exact ⟨Subscriber.targets_eq_nil.2 ⟨none, patterns⟩, due⟩
    · exact absurd (opened.symm.trans left) (by decide)

/-! ## No other run is exact -/

/-- A connection that closes with a subscription leaves it counted. -/
theorem Inv.counts_close (h : Inv w) (opened : (w.conns i).isOpen = true)
    (counts : ∀ t, w.broker.counts t = ((w.put i (w.conns i).close).subscribers t).card) : (w.conns i).targets = [] := by
  refine List.eq_nil_iff_forall_not_mem.2 fun t mem => ?_
  have inside : i ∈ w.subscribers t := mem_subscribers.2 ⟨h.bound i opened, mem⟩
  have fewer : (w.put i (w.conns i).close).subscribers t = (w.subscribers t).erase i := by
    refine subscribers_part w _ rfl (fun j other => ?_) ?_
    · simp [other]
    · simp [Subscriber.close]
  have counted := (h.counts t).symm.trans (counts t)
  rw [fewer] at counted
  exact Nat.ne_of_lt (Finset.card_erase_lt_of_mem inside) counted.symm

theorem Exact.fits_work (h : Inv w) (exact : Exact (.work i) w) : Fits (.work i) w := by
  have counts := exact.counts
  unfold World.step World.work at counts
  unfold Fits
  dsimp only at counts ⊢
  split
  · rename_i t rest work
    rw [work] at counts
    dsimp only at counts
    intro absent
    have counted := counts t
    rw [PubSub.unsubscribe_counts, if_pos rfl, subscribers_same w, ← h.counts t] at counted
    · omega
    · rfl
    · intro j
      by_cases here : j = i
      · subst here
        simp only [put_conns, if_pos]
        exact Subscriber.mem_drop.trans ⟨And.right, fun mem => ⟨fun same => absent (same ▸ mem), mem⟩⟩
      · simp [here]
  · rename_i rest work
    rw [work] at counts
    intro none
    dsimp only at counts
    rw [if_pos none] at counts
    refine ⟨(Subscriber.targets_eq_nil.1 (h.counts_close (h.opened work).1 counts)).2, ?_⟩
    have left : ((step (.work i) w).conns i).isOpen = false := by
      simp [World.step, World.work, work, none, Subscriber.close]
    have all := (exact.leaves i rfl (h.opened work).1 left).2
    have due := h.due i (h.opened work).1
    have length := due.length_eq.trans all.length_eq.symm
    simp only [List.length_append] at length
    exact ⟨List.length_eq_zero_iff.1 (by omega), List.length_eq_zero_iff.1 (by omega)⟩
  · trivial

theorem Exact.fits_request {args : List Resp} (h : Inv w) (exact : Exact (.request i args) w) :
    Fits (.request i args) w := by
  intro idle subscribing quit
  have closes : step (.request i args) w = w.put i (w.conns i).close := by
    simp only [World.step, World.request, idle, subscribing]
    rcases quit with quit | quit <;> simp [quit]
  have counts := exact.counts
  rw [closes] at counts
  exact h.counts_close (idle_iff.1 idle).1 counts

theorem exact_iff_fits (h : Inv w) {e : Event} : Exact e w ↔ Fits e w := by
  constructor
  · intro exact
    cases e with
    | connect => exact trivial
    | request i args => exact exact.fits_request h
    | work i => exact exact.fits_work h
    | disconnect i =>
      intro idle
      have counts := exact.counts
      simp only [World.step, idle, if_true] at counts
      exact h.counts_close (idle_iff.1 idle).1 counts
    | publish channel payload =>
      exact fun i opened => (h.due_publish_iff opened channel payload).1 (exact.due i opened)
    | forward k => exact trivial
    | write i => exact trivial
  · intro fits
    have kept := h.step fits
    refine ⟨kept.counts, kept.due, fun i idle => kept.arrives idle rfl, ?_⟩
    rintro i rfl opened left
    exact leaves_of_fits h fits opened left

end

/-- **Publish and subscribe is exact in a run if and only if** no connection unsubscribes from what only others are
subscribed to, none goes that is subscribed, and nothing is published that a relay of an earlier subscription takes. -/
theorem run_exact_iff (events : List Event) : Always step Exact events .new ↔ Always step Fits events .new :=
  Always.congr Inv.new (fun _ _ h => exact_iff_fits h) fun _ _ h fits => h.step fits

/-- A connection unsubscribes from a channel of another one, whose count is 0 then. -/
theorem run_not_exact : ¬ ∀ events : List Event, Always step Exact events .new := by
  intro exact
  let command (name : String) (channel : UInt8) : List Resp := [.simpleString name, .bulkString (some [channel])]
  have counts := (exact [.connect, .connect, .request 0 (command "SUBSCRIBE" 97), .work 0,
    .request 1 (command "SUBSCRIBE" 98), .work 1, .request 1 (command "UNSUBSCRIBE" 97), .work 1]
    ).2.2.2.2.2.2.2.1.counts (false, [97])
  revert counts
  decide

end World

end Broker

end NexradeCache
