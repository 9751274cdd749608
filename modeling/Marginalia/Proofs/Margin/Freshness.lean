import Marginalia.Margin.Basic
import Marginalia.Margin.Exact

/-! # A clean margin is a fresh one

The layout of a margin depends on heights, on the host's height, and on the threads and the mapper
that were given with the last layout. The first two change under it. What changes them without
declaring the layout out of date has changed nothing, so a margin that is clean shows what it would
show if it were laid out once more.
-/

namespace Marginalia

namespace Heights

variable {α : Type} {h : Heights α}

theorem record_of_unchanged [Coord α] {root : Nat} {height : α}
    (same : (h.record root height).1 = false) : (h.record root height).2 = h := by
  unfold record at same ⊢
  split
  · rfl
  · split
    · rfl
    · next real new =>
        rw [if_neg real, if_neg new] at same
        cases same

theorem mem_retain {live : List Nat} {entry : Nat × α} :
    entry ∈ (h.retain live).2.entries ↔ entry ∈ h.entries ∧ entry.1 ∈ live := by
  simp [retain]

theorem retain_eq_self {live : List Nat} (all : ∀ entry ∈ h.entries, entry.1 ∈ live) :
    (h.retain live).2 = h := by
  have kept : h.entries.filter (fun entry => live.contains entry.1) = h.entries :=
    List.filter_eq_self.mpr fun entry mem => by simpa using all entry mem
  simp only [retain, kept]

end Heights

namespace Margin

variable {α : Type} [Coord α] {m : Margin α} {threads : List Thread} {mapper : Nat → α}

/-- What happens to a margin. -/
inductive Event (α : Type) where
  | scroll (top host : α)
  | resizeCard (root : Nat) (height : α)
  | invalidate
  | relayout (threads : List Thread) (mapper : Nat → α)
  | relayoutIfDirty (threads : List Thread) (mapper : Nat → α)

namespace Event

def run (m : Margin α) : Event α → Margin α
  | .scroll top host => m.scroll top host
  | .resizeCard root height => (m.resizeCard root height).2
  | .invalidate => m.invalidate
  | .relayout threads mapper => m.relayout threads mapper
  | .relayoutIfDirty threads mapper => (m.relayoutIfDirty threads mapper).2

/-- The threads and the mapper that the margin is laid out for, if it is. -/
def laidOut? (m : Margin α) : Event α → Option (List Thread × (Nat → α))
  | .relayout threads mapper => some (threads, mapper)
  | .relayoutIfDirty threads mapper => if m.dirty then some (threads, mapper) else none
  | _ => none

/-- The height of the host that is reported, if one is. -/
def hostHeight? : Event α → Option α
  | .scroll _ host => some host
  | _ => none

end Event

/-- The layout is the one for these threads, and no height is remembered but theirs. -/
structure UpToDate (m : Margin α) (threads : List Thread) (mapper : Nat → α) : Prop where
  layout : m.layout = Layout.ofThreads threads mapper m.heights m.spacing m.hostHeight
  live : ∀ entry ∈ m.heights.entries, ∃ t ∈ threads, t.start = entry.1

theorem upToDate_relayout (m : Margin α) (threads : List Thread) (mapper : Nat → α) :
    (m.relayout threads mapper).UpToDate threads mapper where
  layout := rfl
  live := by
    intro entry mem
    exact List.mem_map.mp (Heights.mem_retain.mp mem).2

theorem relayout_eq_self (h : m.UpToDate threads mapper) (clean : m.dirty = false) :
    m.relayout threads mapper = m := by
  have kept : (m.heights.retain (threads.map Thread.start)).2 = m.heights :=
    Heights.retain_eq_self fun entry mem => List.mem_map.mpr (h.live entry mem)
  simp only [relayout, kept, ← h.layout, ← clean]

theorem scroll_of_clean {top host : α} (clean : (m.scroll top host).dirty = false) :
    m.dirty = false ∧
      m.scroll top host = { m with scrollTop := Coord.larger top Coord.zero } := by
  by_cases same : Coord.same host m.hostHeight
  · have moved : m.scroll top host = { m with scrollTop := Coord.larger top Coord.zero } :=
      if_pos same
    rw [moved] at clean
    exact ⟨clean, moved⟩
  · have moved : m.scroll top host =
        { m with scrollTop := Coord.larger top Coord.zero, hostHeight := host, dirty := true } :=
      if_neg same
    rw [moved] at clean
    cases clean

/-- The margin has the height that it is told, or one that counts as the same. -/
theorem hostHeight_scroll_or_same (top host : α) (m : Margin α) :
    (m.scroll top host).hostHeight = host ∨ Coord.same host (m.scroll top host).hostHeight := by
  simp only [scroll]
  split
  · next same => exact .inr same
  · exact .inl rfl

theorem spacing_scroll (top host : α) (m : Margin α) : (m.scroll top host).spacing = m.spacing := by
  simp only [scroll]
  split <;> rfl

theorem resizeCard_of_clean {root : Nat} {height : α}
    (clean : (m.resizeCard root height).2.dirty = false) :
    m.dirty = false ∧ (m.resizeCard root height).2 = m := by
  have before : m.dirty = false := (Bool.or_eq_false_iff.mp clean).1
  have unchanged : (m.heights.record root height).1 = false := (Bool.or_eq_false_iff.mp clean).2
  refine ⟨before, ?_⟩
  simp only [resizeCard, Heights.record_of_unchanged unchanged, unchanged, Bool.or_false]

/-- A margin, the threads and the mapper it was last laid out for, and the height that was last
    reported for its host. -/
structure Trace (α : Type) where
  margin : Margin α
  last : Option (List Thread × (Nat → α))
  host : α

namespace Trace

variable {s : Trace α}

def start (spacing : Spacing α) : Trace α := ⟨.new spacing, none, Coord.zero⟩

def next (s : Trace α) (e : Event α) : Trace α :=
  ⟨e.run s.margin, (e.laidOut? s.margin).or s.last, e.hostHeight?.getD s.host⟩

/-- What has come of a new margin. -/
def after (spacing : Spacing α) (events : List (Event α)) : Trace α :=
  events.foldl next (start spacing)

/-- The invariant: the margin keeps its spacing, knows the height of its host and, when clean, is up
    to date. -/
structure Sound (spacing : Spacing α) (s : Trace α) : Prop where
  spacing : s.margin.spacing = spacing
  host : s.margin.hostHeight = s.host ∨ Coord.same s.host s.margin.hostHeight
  fresh : s.margin.dirty = false →
    ∃ threads mapper, s.last = some (threads, mapper) ∧ s.margin.UpToDate threads mapper

variable {spacing : Spacing α}

theorem sound_start (spacing : Spacing α) : (start spacing).Sound spacing where
  spacing := rfl
  host := .inl rfl
  fresh := nofun

theorem Sound.relaid (h : s.Sound spacing) (threads : List Thread) (mapper : Nat → α) :
    Sound spacing ⟨s.margin.relayout threads mapper, some (threads, mapper), s.host⟩ where
  spacing := h.spacing
  host := h.host
  fresh _ := ⟨threads, mapper, rfl, upToDate_relayout s.margin threads mapper⟩

/-- Every event keeps the invariant. -/
theorem Sound.next (h : s.Sound spacing) (e : Event α) : (s.next e).Sound spacing := by
  cases e with
  | scroll top host =>
      refine ⟨(spacing_scroll top host s.margin).trans h.spacing,
        hostHeight_scroll_or_same top host s.margin, fun clean => ?_⟩
      obtain ⟨before, moved⟩ := scroll_of_clean clean
      obtain ⟨threads, mapper, last, fresh⟩ := h.fresh before
      refine ⟨threads, mapper, last, ?_⟩
      change (s.margin.scroll top host).UpToDate threads mapper
      rw [moved]
      exact ⟨fresh.layout, fresh.live⟩
  | resizeCard root height =>
      refine ⟨h.spacing, h.host, fun clean => ?_⟩
      obtain ⟨before, unchanged⟩ := resizeCard_of_clean clean
      obtain ⟨threads, mapper, last, fresh⟩ := h.fresh before
      refine ⟨threads, mapper, last, ?_⟩
      change (s.margin.resizeCard root height).2.UpToDate threads mapper
      rw [unchanged]
      exact fresh
  | invalidate => exact ⟨h.spacing, h.host, nofun⟩
  | relayout threads mapper => exact h.relaid threads mapper
  | relayoutIfDirty threads mapper =>
      cases dirty : s.margin.dirty with
      | true =>
          have same : s.next (.relayoutIfDirty threads mapper) =
              ⟨s.margin.relayout threads mapper, some (threads, mapper), s.host⟩ := by
            simp [Trace.next, Event.run, Event.laidOut?, Event.hostHeight?, Margin.relayoutIfDirty,
              dirty]
          rw [same]
          exact h.relaid threads mapper
      | false =>
          have same : s.next (.relayoutIfDirty threads mapper) = s := by
            simp [Trace.next, Event.run, Event.laidOut?, Event.hostHeight?, Margin.relayoutIfDirty,
              dirty]
          rw [same]
          exact h

theorem Sound.foldl (h : s.Sound spacing) (events : List (Event α)) :
    (events.foldl Trace.next s).Sound spacing := by
  induction events generalizing s with
  | nil => exact h
  | cons e events ih => exact ih (h.next e)

theorem sound_after (spacing : Spacing α) (events : List (Event α)) :
    (after spacing events).Sound spacing :=
  (sound_start spacing).foldl events

/-- The host's height is the one last reported. A clean margin shows the layout for the threads and
    the mapper it was last laid out for, with the heights and the host's height of now, and remembers
    no height but theirs. To lay out only if need be comes to the same as to lay out. -/
theorem fresh_of_clean (spacing : Spacing α) (events : List (Event α)) :
    let s := after spacing events
    (s.margin.hostHeight = s.host ∨ Coord.same s.host s.margin.hostHeight) ∧
    (s.margin.dirty = false → ∃ threads mapper, s.last = some (threads, mapper) ∧
      s.margin.layout =
        Layout.ofThreads threads mapper s.margin.heights spacing s.margin.hostHeight ∧
      ∀ entry ∈ s.margin.heights.entries, ∃ t ∈ threads, t.start = entry.1) ∧
    ∀ threads mapper, s.last = some (threads, mapper) →
      (s.margin.relayoutIfDirty threads mapper).2 = s.margin.relayout threads mapper := by
  intro s
  have sound := sound_after spacing events
  refine ⟨sound.host, fun clean => ?_, fun threads mapper last => ?_⟩
  · obtain ⟨threads, mapper, last, fresh⟩ := sound.fresh clean
    exact ⟨threads, mapper, last, sound.spacing ▸ fresh.layout, fresh.live⟩
  · cases dirty : s.margin.dirty with
    | true => rw [relayoutIfDirty, if_pos dirty]
    | false =>
        obtain ⟨threads', mapper', last', fresh⟩ := sound.fresh dirty
        obtain ⟨rfl, rfl⟩ := Prod.mk.inj (Option.some.inj (last.symm.trans last'))
        rw [relayoutIfDirty, if_neg (by simp [dirty]), relayout_eq_self fresh dirty]

/-- The height of a thread that is gone has been forgotten, jitter has not been remembered, and a
    scroll at the same host height has changed nothing. -/
theorem fresh_of_clean_after_jitter :
    let spacing : Spacing Exact := Spacing.standard
    let thread : Thread := ⟨⟨⟨3, 10⟩, ⟨6, 7⟩, ['x'], .comment none⟩, []⟩
    let mapper (offset : Nat) : Exact := .finite offset
    let events : List (Event Exact) := [.scroll (.finite 0) (.finite 100),
      .resizeCard 3 (.finite 40), .resizeCard 99 (.finite 10), .relayout [thread] mapper,
      .resizeCard 3 (.finite (81 / 2)), .scroll (.finite 7) (.finite 100)]
    let s := after spacing events
    s.margin.dirty = false ∧ s.margin.heights.entries = [(3, .finite 40)] ∧
      s.margin.hostHeight = .finite 100 ∧
      s.margin.layout =
        Layout.ofThreads [thread] mapper s.margin.heights spacing s.margin.hostHeight ∧
      (s.margin.relayoutIfDirty [thread] mapper).2 = s.margin.relayout [thread] mapper := by
  intro spacing thread mapper events s
  obtain ⟨-, fresh, same⟩ := fresh_of_clean spacing events
  have clean : s.margin.dirty = false := by decide +kernel
  have last : s.last = some ([thread], mapper) := by rfl
  obtain ⟨threads, mapper', last', layout, -⟩ := fresh clean
  obtain ⟨rfl, rfl⟩ := Prod.mk.inj (Option.some.inj (last.symm.trans last'))
  exact ⟨clean, by decide +kernel, by decide +kernel, layout, same [thread] mapper last⟩

end Trace

end Margin

end Marginalia
