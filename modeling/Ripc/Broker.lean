import Mathlib.Data.Set.Card
import Mathlib.Logic.Function.Basic

namespace Ripc

structure Party (U M : Type) where
  user : U
  watches : Bool
  mail : List M

/-- `H` are the handles by which parties call the broker, `N` the names of servers, and `I` the ids of clients, servers
and channels. Each client is linked to one server at most, over a channel of its own. -/
@[ext] structure Broker (H P I N U M : Type) where
  handles : H → Option P
  parties : P → Option (Party U M)
  clients : I → Option P
  servers : I → Option (P × N)
  links : I → Option (I × I)

namespace Broker

variable {H P I N U M : Type}

def empty : Broker H P I N U M := ⟨fun _ => none, fun _ => none, fun _ => none, fun _ => none, fun _ => none⟩

def clientsOf (b : Broker H P I N U M) (p : P) : Set I := {i | b.clients i = some p}

def serversOf (b : Broker H P I N U M) (p : P) : Set I := {i | ∃ name, b.servers i = some (p, name)}

/-- The link of client `c` has a side at the party. -/
def Touches (b : Broker H P I N U M) (p : P) (c : I) : Prop :=
  ∃ v x, b.links c = some (v, x) ∧ (c ∈ b.clientsOf p ∨ v ∈ b.serversOf p)

/-- Nothing has this id. -/
structure Unused (b : Broker H P I N U M) (i : I) : Prop where
  client : b.clients i = none
  server : b.servers i = none
  channel : ∀ c v x, b.links c = some (v, x) → x ≠ i

/-- Whatever a broker knows is of somebody whom it knows. -/
structure Sound (b : Broker H P I N U M) : Prop where
  handle : ∀ f p, b.handles f = some p → b.parties p ≠ none
  own : ∀ f g p, b.handles f = some p → b.handles g = some p → f = g
  client : ∀ i p, b.clients i = some p → b.parties p ≠ none
  server : ∀ i p name, b.servers i = some (p, name) → b.parties p ≠ none
  apart : ∀ i, b.clients i ≠ none → b.servers i = none
  linkClient : ∀ c v x, b.links c = some (v, x) → b.clients c ≠ none
  linkServer : ∀ c v x, b.links c = some (v, x) → b.servers v ≠ none
  channel : ∀ c c' v v' x, b.links c = some (v, x) → b.links c' = some (v', x) → c = c'

theorem Sound.empty : (empty : Broker H P I N U M).Sound := by
  constructor <;> intros <;> simp_all [Broker.empty]

section

variable [DecidableEq H] [DecidableEq P] {b : Broker H P I N U M} {f g : H} {p q : P} {i : I} {n : N} {user : U}

def enter (b : Broker H P I N U M) (f : H) (p : P) (user : U) : Broker H P I N U M :=
  { b with
    handles := Function.update b.handles f (some p)
    parties := Function.update b.parties p (some ⟨user, false, []⟩) }

def leave (b : Broker H P I N U M) (f : H) (p : P) : Broker H P I N U M :=
  { b with
    handles := Function.update b.handles f none
    parties := Function.update b.parties p none
    clients := fun i => (b.clients i).filter (· ≠ p)
    servers := fun i => (b.servers i).filter (·.1 ≠ p) }

theorem handles_enter : (b.enter f p user).handles g = if g = f then some p else b.handles g := Function.update_apply ..

theorem parties_enter :
    (b.enter f p user).parties q = if q = p then some ⟨user, false, []⟩ else b.parties q := Function.update_apply ..

theorem handles_leave : (b.leave f p).handles g = if g = f then none else b.handles g := Function.update_apply ..

theorem parties_leave : (b.leave f p).parties q = if q = p then none else b.parties q := Function.update_apply ..

theorem clients_leave : (b.leave f p).clients i = some q ↔ b.clients i = some q ∧ q ≠ p := by
  simp [leave, Option.filter_eq_some_iff]

theorem servers_leave : (b.leave f p).servers i = some (q, n) ↔ b.servers i = some (q, n) ∧ q ≠ p := by
  simp [leave, Option.filter_eq_some_iff]

theorem Sound.enter (h : b.Sound) (handle : b.handles f = none) (party : b.parties p = none) :
    (b.enter f p user).Sound := by
  have live : ∀ {q}, b.parties q ≠ none → (b.enter f p user).parties q ≠ none := by
    intro q hq
    rw [parties_enter]
    split
    next => exact Option.some_ne_none _
    next => exact hq
  have handles : ∀ {g q}, (b.enter f p user).handles g = some q → (g = f ∧ q = p) ∨ b.handles g = some q ∧ q ≠ p := by
    intro g q hg
    rw [handles_enter] at hg
    split at hg
    next same =>
      cases hg
      exact Or.inl ⟨same, rfl⟩
    next =>
      refine Or.inr ⟨hg, ?_⟩
      rintro rfl
      exact h.handle g q hg party
  refine ⟨fun g q hg => ?_, fun g g' q hg hg' => ?_, fun i q hi => live (h.client i q hi),
    fun i q name hi => live (h.server i q name hi), h.apart, h.linkClient, h.linkServer, h.channel⟩
  · rcases handles hg with ⟨_, rfl⟩ | ⟨hg, _⟩
    · simp [parties_enter]
    · exact live (h.handle g q hg)
  · rcases handles hg with ⟨rfl, rfl⟩ | ⟨hg, other⟩ <;> rcases handles hg' with ⟨rfl, same⟩ | ⟨hg', other'⟩
    · rfl
    · exact absurd rfl other'
    · exact absurd same other
    · exact h.own g g' q hg hg'

theorem Sound.leave (h : b.Sound) (handle : b.handles f = some p) (alone : ∀ c, ¬b.Touches p c) :
    (b.leave f p).Sound := by
  have live : ∀ {q}, b.parties q ≠ none → q ≠ p → (b.leave f p).parties q ≠ none := by
    intro q hq other
    rwa [parties_leave, if_neg other]
  have handles : ∀ {g q}, (b.leave f p).handles g = some q → b.handles g = some q ∧ g ≠ f := by
    intro g q hg
    rw [handles_leave] at hg
    split at hg
    next => cases hg
    next other => exact ⟨hg, other⟩
  refine ⟨fun g q hg => ?_, fun g g' q hg hg' => h.own g g' q (handles hg).1 (handles hg').1, fun i q hi => ?_,
    fun i q n hi => ?_, fun i hi => ?_, fun c v x hc => ?_, fun c v x hc => ?_, h.channel⟩
  · obtain ⟨here, other⟩ := handles hg
    refine live (h.handle g q here) ?_
    rintro rfl
    exact other (h.own g f q here handle)
  · obtain ⟨hi, other⟩ := clients_leave.mp hi
    exact live (h.client i q hi) other
  · obtain ⟨hi, other⟩ := servers_leave.mp hi
    exact live (h.server i q n hi) other
  · obtain ⟨q, hq⟩ := Option.ne_none_iff_exists'.mp hi
    have none := h.apart i (by simp [(clients_leave.mp hq).1])
    simp [Broker.leave, none]
  · obtain ⟨q, hq⟩ := Option.ne_none_iff_exists'.mp (h.linkClient c v x hc)
    have other : q ≠ p := by
      rintro rfl
      exact alone c ⟨v, x, hc, Or.inl hq⟩
    exact Option.ne_none_iff_exists'.mpr ⟨q, clients_leave.mpr ⟨hq, other⟩⟩
  · obtain ⟨⟨q, n⟩, hq⟩ := Option.ne_none_iff_exists'.mp (h.linkServer c v x hc)
    have other : q ≠ p := by
      rintro rfl
      exact alone c ⟨v, x, hc, Or.inr ⟨n, hq⟩⟩
    exact Option.ne_none_iff_exists'.mpr ⟨(q, n), servers_leave.mpr ⟨hq, other⟩⟩

end

section

def close [DecidableEq H] (b : Broker H P I N U M) (f : H) : Broker H P I N U M :=
  { b with handles := Function.update b.handles f none }

variable {b : Broker H P I N U M} {f g : H}

theorem handles_close [DecidableEq H] : (b.close f).handles g = if g = f then none else b.handles g :=
  Function.update_apply ..

theorem Sound.close [DecidableEq H] (h : b.Sound) (f : H) : (b.close f).Sound := by
  have old : ∀ {g q}, (b.close f).handles g = some q → b.handles g = some q := by
    intro g q hg
    rw [handles_close] at hg
    split at hg
    next => cases hg
    next => exact hg
  exact ⟨fun g q hg => h.handle g q (old hg), fun g g' q hg hg' => h.own g g' q (old hg) (old hg'), h.client, h.server,
    h.apart, h.linkClient, h.linkServer, h.channel⟩

end

section

variable [DecidableEq P] {b : Broker H P I N U M} {p q : P} {g : Party U M → Party U M}

def alter (b : Broker H P I N U M) (p : P) (g : Party U M → Party U M) : Broker H P I N U M :=
  { b with parties := Function.update b.parties p ((b.parties p).map g) }

def post (b : Broker H P I N U M) (p : P) (m : M) : Broker H P I N U M :=
  b.alter p fun q => { q with mail := q.mail ++ [m] }

def take (b : Broker H P I N U M) (p : P) : Broker H P I N U M := b.alter p fun q => { q with mail := q.mail.tail }

def watch (b : Broker H P I N U M) (p : P) : Broker H P I N U M := b.alter p fun q => { q with watches := true }

theorem parties_alter : (b.alter p g).parties q = if q = p then (b.parties q).map g else b.parties q := by
  refine (Function.update_apply ..).trans ?_
  split
  next same => rw [same]
  next => rfl

theorem Sound.alter (h : b.Sound) (p : P) : (b.alter p g).Sound := by
  have live : ∀ {q}, b.parties q ≠ none → (b.alter p g).parties q ≠ none := by
    intro q hq
    rw [parties_alter]
    split
    next => simpa using hq
    next => exact hq
  exact ⟨fun f q hf => live (h.handle f q hf), h.own, fun i q hi => live (h.client i q hi),
    fun i q name hi => live (h.server i q name hi), h.apart, h.linkClient, h.linkServer, h.channel⟩

end

section

variable [DecidableEq I] {b : Broker H P I N U M} {p : P} {i j c d v x : I} {name : N}

def join (b : Broker H P I N U M) (p : P) (i : I) : Broker H P I N U M :=
  { b with clients := Function.update b.clients i (some p) }

def resign (b : Broker H P I N U M) (i : I) : Broker H P I N U M :=
  { b with clients := Function.update b.clients i none }

def offer (b : Broker H P I N U M) (p : P) (i : I) (name : N) : Broker H P I N U M :=
  { b with servers := Function.update b.servers i (some (p, name)) }

def withdraw (b : Broker H P I N U M) (i : I) : Broker H P I N U M :=
  { b with servers := Function.update b.servers i none }

/-- Client `c` is linked to server `v` over channel `x`. -/
def connect (b : Broker H P I N U M) (c v x : I) : Broker H P I N U M :=
  { b with links := Function.update b.links c (some (v, x)) }

def part (b : Broker H P I N U M) (c : I) : Broker H P I N U M :=
  { b with links := Function.update b.links c none }

theorem clients_join : (b.join p i).clients j = if j = i then some p else b.clients j := Function.update_apply ..

theorem clients_resign : (b.resign i).clients j = if j = i then none else b.clients j := Function.update_apply ..

theorem servers_offer : (b.offer p i name).servers j = if j = i then some (p, name) else b.servers j :=
  Function.update_apply ..

theorem servers_withdraw : (b.withdraw i).servers j = if j = i then none else b.servers j := Function.update_apply ..

theorem links_connect : (b.connect c v x).links d = if d = c then some (v, x) else b.links d := Function.update_apply ..

theorem links_part : (b.part c).links d = if d = c then none else b.links d := Function.update_apply ..

theorem Sound.join (h : b.Sound) (party : b.parties p ≠ none) (server : b.servers i = none) : (b.join p i).Sound := by
  have clients : ∀ {j q}, (b.join p i).clients j = some q → (j = i ∧ q = p) ∨ b.clients j = some q := by
    intro j q hj
    rw [clients_join] at hj
    split at hj
    next same =>
      cases hj
      exact Or.inl ⟨same, rfl⟩
    next => exact Or.inr hj
  refine ⟨h.handle, h.own, fun j q hj => ?_, h.server, fun j hj => ?_, fun c v x hc => ?_, h.linkServer, h.channel⟩
  · rcases clients hj with ⟨_, rfl⟩ | hj
    · exact party
    · exact h.client j q hj
  · obtain ⟨q, hq⟩ := Option.ne_none_iff_exists'.mp hj
    rcases clients hq with ⟨rfl, _⟩ | hq
    · exact server
    · exact h.apart j (by simp [hq])
  · rw [clients_join]
    split
    next => exact Option.some_ne_none _
    next => exact h.linkClient c v x hc

theorem Sound.offer (h : b.Sound) (party : b.parties p ≠ none) (client : b.clients i = none) :
    (b.offer p i name).Sound := by
  have live : ∀ {j}, b.servers j ≠ none → (b.offer p i name).servers j ≠ none := by
    intro j hj
    rw [servers_offer]
    split
    next => exact Option.some_ne_none _
    next => exact hj
  refine ⟨h.handle, h.own, h.client, fun j q n hj => ?_, fun j hj => ?_, h.linkClient,
    fun c v x hc => live (h.linkServer c v x hc), h.channel⟩
  · rw [servers_offer] at hj
    split at hj
    next =>
      cases hj
      exact party
    next => exact h.server j q n hj
  · rw [servers_offer, if_neg, h.apart j hj]
    rintro rfl
    exact hj client

theorem Sound.resign (h : b.Sound) (idle : b.links i = none) : (b.resign i).Sound := by
  have old : ∀ {j q}, (b.resign i).clients j = some q → b.clients j = some q := by
    intro j q hj
    rw [clients_resign] at hj
    split at hj
    next => cases hj
    next => exact hj
  refine ⟨h.handle, h.own, fun j q hj => h.client j q (old hj), h.server, fun j hj => ?_, fun c v x hc => ?_,
    h.linkServer, h.channel⟩
  · obtain ⟨q, hq⟩ := Option.ne_none_iff_exists'.mp hj
    exact h.apart j (by simp [old hq])
  · rw [clients_resign, if_neg]
    · exact h.linkClient c v x hc
    · rintro rfl
      cases idle.symm.trans hc

theorem Sound.withdraw (h : b.Sound) (unused : ∀ c x, b.links c ≠ some (i, x)) : (b.withdraw i).Sound := by
  refine ⟨h.handle, h.own, h.client, fun j q n hj => ?_, fun j hj => ?_, h.linkClient, fun c v x hc => ?_, h.channel⟩
  · rw [servers_withdraw] at hj
    split at hj
    next => cases hj
    next => exact h.server j q n hj
  · rw [servers_withdraw]
    split
    next => rfl
    next => exact h.apart j hj
  · rw [servers_withdraw, if_neg]
    · exact h.linkServer c v x hc
    · rintro rfl
      exact unused c x hc

theorem Sound.connect (h : b.Sound) (client : b.clients c ≠ none) (server : b.servers v ≠ none)
    (channel : ∀ d w y, b.links d = some (w, y) → y ≠ x) : (b.connect c v x).Sound := by
  have links : ∀ {d w y}, (b.connect c v x).links d = some (w, y) →
      (d = c ∧ w = v ∧ y = x) ∨ b.links d = some (w, y) ∧ y ≠ x := by
    intro d w y hd
    rw [links_connect] at hd
    split at hd
    next same =>
      cases hd
      exact Or.inl ⟨same, rfl, rfl⟩
    next => exact Or.inr ⟨hd, channel d w y hd⟩
  refine ⟨h.handle, h.own, h.client, h.server, h.apart, fun d w y hd => ?_, fun d w y hd => ?_,
    fun d d' w w' y hd hd' => ?_⟩
  · rcases links hd with ⟨rfl, _⟩ | ⟨hd, _⟩
    · exact client
    · exact h.linkClient d w y hd
  · rcases links hd with ⟨_, rfl, _⟩ | ⟨hd, _⟩
    · exact server
    · exact h.linkServer d w y hd
  · rcases links hd with ⟨rfl, _, rfl⟩ | ⟨hd, other⟩ <;> rcases links hd' with ⟨rfl, _, same⟩ | ⟨hd', other'⟩
    · rfl
    · exact absurd rfl other'
    · exact absurd same other
    · exact h.channel d d' w w' y hd hd'

theorem Sound.part (h : b.Sound) (c : I) : (b.part c).Sound := by
  have old : ∀ {d w y}, (b.part c).links d = some (w, y) → b.links d = some (w, y) := by
    intro d w y hd
    rw [links_part] at hd
    split at hd
    next => cases hd
    next => exact hd
  exact ⟨h.handle, h.own, h.client, h.server, h.apart, fun d w y hd => h.linkClient d w y (old hd),
    fun d w y hd => h.linkServer d w y (old hd), fun d d' w w' y hd hd' => h.channel d d' w w' y (old hd) (old hd')⟩

end

end Broker

end Ripc
