import Grafted.Cf.RunLoopRules

/-! What is registered in which mode.

A mode lists three kinds of item. Of all that a thread does only the calls of the
API move items: a run of the loop may make an empty mode (`Settled`), so a whole
run is the sequence of its calls, each with what it adds to or removes from the
lists of the modes it names (`exec_steps`). An item added through the common modes
alone stays inside them, however many more become common, and one removal through
the common modes takes it out of every mode (`registrations_sound`). -/
namespace Grafted.Cf.RunLoop
open Traced

variable {T : Type} [CFTime T]

/-! ### Items -/

inductive Kind where
  | source
  | timer
  | observer
  deriving DecidableEq

@[ext] structure Item where
  kind : Kind
  ref : Ref
  deriving DecidableEq

def CFRunLoopModeInner.list (m : CFRunLoopModeInner) : Kind → List Ref
  | .source => m.sources.refs
  | .timer => m.timers.refs
  | .observer => m.observers.refs

def CFRunLoopModeInner.modify (m : CFRunLoopModeInner) (kind : Kind) (f : Registry → Registry) :
    CFRunLoopModeInner :=
  match kind with
  | .source => {m with sources := f m.sources}
  | .timer => {m with timers := f m.timers}
  | .observer => {m with observers := f m.observers}

theorem CFRunLoopModeInner.list_modify (m : CFRunLoopModeInner) (kind : Kind) {f : Registry → Registry}
    {change : List Ref → List Ref} (hf : ∀ r, (f r).refs = change r.refs) (other : Kind) :
    (m.modify kind f).list other = if other = kind then change (m.list other) else m.list other := by
  cases kind <;> cases other <;> simp [modify, list, hf]

/-- The items of one kind in a mode; none if the mode is not there. -/
def World.listed (w : World T) (kind : Kind) (mode : String) : List Ref :=
  ((w.rl.modes mode).map (·.list kind)).getD []

theorem CFRunLoopModeInner.list_nodup (m : CFRunLoopModeInner) (kind : Kind) : (m.list kind).Nodup := by
  cases kind with
  | source => exact m.sources.nodup
  | timer => exact m.timers.nodup
  | observer => exact m.observers.nodup

theorem World.listed_nodup (w : World T) (kind : Kind) (mode : String) : (w.listed kind mode).Nodup := by
  unfold World.listed
  cases w.rl.modes mode with
  | none => exact List.nodup_nil
  | some m => exact m.list_nodup kind

/-- The item a call adds, and through which mode; none if a pointer is null. -/
def Api.adds : Api T → Option (Item × CFRunLoopMode)
  | .addSource true (some x) mode => some (⟨.source, x⟩, mode)
  | .addTimer true (some x) mode => some (⟨.timer, x⟩, mode)
  | .addObserver true (some x) mode => some (⟨.observer, x⟩, mode)
  | _ => none

def Api.removes : Api T → Option (Item × CFRunLoopMode)
  | .removeSource true (some x) mode => some (⟨.source, x⟩, mode)
  | .removeTimer true (some x) mode => some (⟨.timer, x⟩, mode)
  | .removeObserver true (some x) mode => some (⟨.observer, x⟩, mode)
  | _ => none

/-- A list that `x` is pushed to unless it is there. -/
def pushed (x : Ref) (l : List Ref) : List Ref := if x ∈ l then l else l ++ [x]

theorem Registry.add_refs (r : Registry) (x : Ref) : (r.add x).refs = pushed x r.refs := by
  unfold Registry.add pushed
  split_ifs
  · rfl
  · exact List.concat_eq_append

/-! ### What a call does to the lists -/

/-- From one world to another the lists are the same, and the common modes; modes
may come. -/
structure Settled (w w' : World T) : Prop where
  listed : ∀ kind mode, w'.listed kind mode = w.listed kind mode
  commonModes : w'.rl.commonModes = w.rl.commonModes
  modes : ∀ mode, (w.rl.modes mode).isSome → (w'.rl.modes mode).isSome

theorem Settled.refl (w : World T) : Settled w w := ⟨fun _ _ => rfl, rfl, fun _ h => h⟩

theorem Settled.trans {w u v : World T} (h : Settled w u) (h' : Settled u v) : Settled w v :=
  ⟨fun kind mode => (h'.listed kind mode).trans (h.listed kind mode),
    h'.commonModes.trans h.commonModes, fun mode hmode => h'.modes mode (h.modes mode hmode)⟩

theorem Settled.of_eq {w w' : World T} (hmodes : w'.rl.modes = w.rl.modes)
    (hcommon : w'.rl.commonModes = w.rl.commonModes) : Settled w w' :=
  ⟨fun kind mode => by rw [World.listed, hmodes]; rfl, hcommon, fun mode h => by rwa [hmodes]⟩

/-- A mode that was not there is there with nothing in it. -/
theorem ensureMode_settled (w : World T) (name : String) : Settled w (w.ensureMode name) := by
  refine ⟨fun kind mode => ?_, rfl, fun mode h => ?_⟩
  · show ((Function.update w.rl.modes name _ mode).map (·.list kind)).getD [] = _
    by_cases hmode : mode = name
    · subst hmode
      rw [Function.update_self, World.listed]
      cases w.rl.modes mode with
      | none => cases kind <;> rfl
      | some m => rfl
    · rw [Function.update_of_ne hmode]
      rfl
  · show (Function.update w.rl.modes name _ mode).isSome
    by_cases hmode : mode = name
    · subst hmode
      rw [Function.update_self]
      rfl
    · rwa [Function.update_of_ne hmode]

/-- The world after a call that does `change` to the list of the item's kind in the
modes that `mode` names. -/
structure Changes (w : World T) (item : Item) (mode : CFRunLoopMode) (change : List Ref → List Ref)
    (w' : World T) : Prop where
  listed : ∀ kind name, w'.listed kind name =
    if kind = item.kind ∧ w.names mode name then change (w.listed kind name) else w.listed kind name
  commonModes : w'.rl.commonModes = w.rl.commonModes
  modes : ∀ name, (w.rl.modes name).isSome → (w'.rl.modes name).isSome

theorem register_changes (w : World T) (item : Item) (mode : CFRunLoopMode) {f : Registry → Registry}
    {change : List Ref → List Ref} (hf : ∀ r, (f r).refs = change r.refs) :
    Changes w item mode change (w.register mode fun m => m.modify item.kind f) := by
  refine ⟨fun kind name => ?_, rfl, fun name h => ?_⟩
  · have hafter : (w.register mode fun m => m.modify item.kind f).listed kind name =
        (Option.map (fun m => m.list kind) (if w.names mode name
          then some (((w.rl.modes name).getD .new).modify item.kind f) else w.rl.modes name)).getD [] := rfl
    rw [hafter]
    by_cases hname : w.names mode name = true
    · have hold : ((w.rl.modes name).getD .new).list kind = w.listed kind name := by
        rw [World.listed]
        cases w.rl.modes name with
        | none => cases kind <;> rfl
        | some m => rfl
      rw [if_pos hname, Option.map_some, Option.getD_some, CFRunLoopModeInner.list_modify _ _ hf, hold]
      simp only [hname, and_true]
    · rw [if_neg hname, if_neg fun h => hname h.2]
      rfl
  · show (if w.names mode name then _ else w.rl.modes name).isSome
    split_ifs
    · rfl
    · exact h

theorem unregister_changes (w : World T) (item : Item) (mode : CFRunLoopMode) {f : Registry → Registry}
    {change : List Ref → List Ref} (hf : ∀ r, (f r).refs = change r.refs) (hnil : change [] = []) :
    Changes w item mode change (w.unregister mode fun m => m.modify item.kind f) := by
  refine ⟨fun kind name => ?_, rfl, fun name h => ?_⟩
  · have hafter : (w.unregister mode fun m => m.modify item.kind f).listed kind name =
        (Option.map (fun m => m.list kind) (if w.names mode name
          then (w.rl.modes name).map (·.modify item.kind f) else w.rl.modes name)).getD [] := rfl
    rw [hafter]
    by_cases hname : w.names mode name = true
    · rw [if_pos hname, World.listed]
      simp only [hname, and_true]
      cases w.rl.modes name with
      | none => simp [hnil]
      | some m => exact m.list_modify item.kind hf kind
    · rw [if_neg hname, if_neg fun h => hname h.2]
      rfl
  · show (if w.names mode name then _ else w.rl.modes name).isSome
    split_ifs
    · rwa [Option.isSome_map]
    · exact h

/-- A call that adds an item pushes it to the lists of the modes named. -/
theorem World.perform_adds (w : World T) {call : Api T} {item : Item} {mode : CFRunLoopMode}
    (h : call.adds = some (item, mode)) :
    Changes w item mode (pushed item.ref) (w.perform call).1 := by
  have hadd : ∀ x r, (Registry.add r x).refs = pushed x r.refs := fun x r => r.add_refs x
  unfold Api.adds at h
  split at h
  · rename_i x _
    cases h
    exact register_changes w ⟨.source, x⟩ mode (hadd x)
  · rename_i x _
    cases h
    exact register_changes w ⟨.timer, x⟩ mode (hadd x)
  · rename_i x _
    cases h
    exact register_changes w ⟨.observer, x⟩ mode (hadd x)
  · exact nomatch h

/-- A call that removes an item takes it out of the lists of the modes named. -/
theorem World.perform_removes (w : World T) {call : Api T} {item : Item} {mode : CFRunLoopMode}
    (h : call.removes = some (item, mode)) :
    Changes w item mode (·.filter (· != item.ref)) (w.perform call).1 := by
  have hremove : ∀ x r, (Registry.remove r x).refs = r.refs.filter (· != x) := fun _ _ => rfl
  unfold Api.removes at h
  split at h
  · rename_i x _
    cases h
    exact unregister_changes w ⟨.source, x⟩ mode (hremove x) rfl
  · rename_i x _
    cases h
    exact unregister_changes w ⟨.timer, x⟩ mode (hremove x) rfl
  · rename_i x _
    cases h
    exact unregister_changes w ⟨.observer, x⟩ mode (hremove x) rfl
  · exact nomatch h

/-- Of the other calls one makes a mode common, and there. -/
structure Extends (w w' : World T) : Prop where
  listed : ∀ kind mode, w'.listed kind mode = w.listed kind mode
  commonModes : ∀ name ∈ w.rl.commonModes, name ∈ w'.rl.commonModes
  common : ∀ name ∈ w'.rl.commonModes, name ∈ w.rl.commonModes ∨ (w'.rl.modes name).isSome
  modes : ∀ mode, (w.rl.modes mode).isSome → (w'.rl.modes mode).isSome

theorem Settled.extends {w w' : World T} (h : Settled w w') : Extends w w' :=
  ⟨h.listed, fun _ hname => h.commonModes ▸ hname, fun _ hname => .inl (h.commonModes ▸ hname), h.modes⟩

theorem Extends.of_eq {w w' : World T} (hmodes : w'.rl.modes = w.rl.modes)
    (hcommon : w'.rl.commonModes = w.rl.commonModes) : Extends w w' :=
  (Settled.of_eq hmodes hcommon).extends

theorem addCommonMode_extends (w : World T) (rl : Bool) (mode : CFRunLoopMode) :
    Extends w (w.cfRunLoopAddCommonMode rl mode) := by
  cases rl with
  | false => exact (Settled.refl w).extends
  | true =>
    set name := modeNameFromPtr mode with hname
    set commonModes := if name ∈ w.rl.commonModes then w.rl.commonModes else w.rl.commonModes ++ [name]
      with hcommon
    have hmem : ∀ other, other ∈ commonModes ↔ other ∈ w.rl.commonModes ∨ other = name := by
      intro other
      rw [hcommon]
      split_ifs with hin
      · exact ⟨.inl, fun h => h.elim id fun heq => heq ▸ hin⟩
      · rw [List.mem_append, List.mem_singleton]
    have hsettled := ensureMode_settled {w with rl := {w.rl with commonModes := commonModes}} name
    refine ⟨hsettled.listed, fun other h => (hmem other).mpr (.inl h), fun other h => ?_, hsettled.modes⟩
    rcases (hmem other).mp h with h | rfl
    · exact .inl h
    · refine .inr ?_
      show (Function.update w.rl.modes name _ name).isSome
      rw [Function.update_self]
      rfl

theorem World.perform_others (w : World T) {call : Api T} (hadds : call.adds = none)
    (hremoves : call.removes = none) : Extends w (w.perform call).1 := by
  cases call with
  | addSource rl x mode | addTimer rl x mode | addObserver rl x mode =>
    cases rl with
    | false => exact (Settled.refl w).extends
    | true =>
      cases x with
      | none => exact (Settled.refl w).extends
      | some x => exact nomatch hadds
  | removeSource rl x mode | removeTimer rl x mode | removeObserver rl x mode =>
    cases rl with
    | false => exact (Settled.refl w).extends
    | true =>
      cases x with
      | none => exact (Settled.refl w).extends
      | some x => exact nomatch hremoves
  | addCommonMode rl mode => exact addCommonMode_extends w rl mode
  | stop rl => cases rl <;> exact .of_eq rfl rfl
  | sourceSignal source => cases source <;> exact .of_eq rfl rfl
  | wakeUp | copyCurrentMode | sourceCreate | containsSource | timerCreate | observerCreate
  | absoluteTimeGetCurrent => exact .of_eq rfl rfl

/-! ### A run as its calls -/

/-- The world after the call of an event; without one, the event's. -/
def Ev.next (e : Ev T) : World T :=
  match e.what with
  | .api call => (e.world.perform call).1
  | _ => e.world

/-- A run, for what is registered: its calls, and between them nothing. -/
def Registers : World T → List (Ev T) → World T → Prop :=
  Steps Settled Ev.world fun e w => w = e.next

theorem Registers.composes : Composes (Registers (T := T)) := Steps.composes Settled.refl Settled.trans

theorem Registers.split {w w' : World T} {before after : List (Ev T)} {e : Ev T}
    (h : Registers w (before ++ e :: after) w') :
    Registers w before e.world ∧ Registers e.next after w' := by
  obtain ⟨hbefore, u, rfl, hafter⟩ := Steps.split h
  exact ⟨hbefore, hafter⟩

theorem Registers.move {w w' : World T} (h : Settled w w') : Registers w [] w' := .nil w w' h

theorem Registers.record (frames : List Frame) {what : What T} (h : ∀ call, what ≠ .api call) :
    Keeps Registers (RunLoop.record frames what) := by
  intro w
  have hnext : w = (⟨frames, what, w⟩ : Ev T).next := by
    unfold Ev.next
    split
    · rename_i call hwhat
      exact absurd hwhat (h call)
    · rfl
  exact .cons w w w _ [] (Settled.refl w) hnext (.nil w w (Settled.refl w))

theorem LoopMove.settled {f : World T → World T} (h : LoopMove f) (w : World T) : Settled w (f w) := by
  cases h with
  | start mode =>
    have hsame : Settled w {w with activations := w.activations + 1} := .of_eq rfl rfl
    exact hsame.trans (ensureMode_settled _ mode)
  | pushMode | popMode => exact .of_eq rfl rfl
  | phase _ h => cases h <;> exact .of_eq rfl rfl

theorem exec_steps (p : Prog T) (frames : List Frame) : Keeps Registers (exec p frames) := by
  refine exec_keeps (R := fun _ => Registers) (fun _ => Registers.composes) ?_ ?_ p frames
  · intro frames call w
    exact .cons w _ _ _ [] (Settled.refl w) rfl (.nil _ _ (Settled.refl _))
  · intro frames callee mode seconds returnAfterSource hcallee
    exact cfRunLoopRunInMode_keeps Registers.composes (fun _ h => Registers.record frames h)
      (fun _ h w => Registers.move (h.settled w)) hcallee mode seconds returnAfterSource

/-! ### What a run keeps -/

/-- Every common mode is there. -/
def CommonThere (w : World T) : Prop := ∀ name ∈ w.rl.commonModes, (w.rl.modes name).isSome

/-- The item is in common modes only. -/
def InCommon (item : Item) (w : World T) : Prop :=
  ∀ name, item.ref ∈ w.listed item.kind name → name ∈ w.rl.commonModes

/-- The item is in no mode. -/
def Absent (item : Item) (w : World T) : Prop := ∀ name, item.ref ∉ w.listed item.kind name

/-- The event is a call that adds the item, through that mode. -/
def Ev.Adds (e : Ev T) (item : Item) (mode : CFRunLoopMode) : Prop :=
  ∃ call, e.what = .api call ∧ call.adds = some (item, mode)

def Ev.Removes (e : Ev T) (item : Item) (mode : CFRunLoopMode) : Prop :=
  ∃ call, e.what = .api call ∧ call.removes = some (item, mode)

/-- What an event does: it pushes an item, it takes one out, or it leaves the lists. -/
theorem Ev.next_cases (e : Ev T) :
    (∃ item mode, e.Adds item mode ∧ Changes e.world item mode (pushed item.ref) e.next) ∨
    (∃ item mode, e.Removes item mode ∧
      Changes e.world item mode (·.filter (· != item.ref)) e.next) ∨
    Extends e.world e.next := by
  unfold Ev.next
  split
  · rename_i call hwhat
    cases hadds : call.adds with
    | some added => exact .inl ⟨added.1, added.2, ⟨call, hwhat, hadds⟩, e.world.perform_adds hadds⟩
    | none =>
      cases hremoves : call.removes with
      | some removed =>
        exact .inr (.inl ⟨removed.1, removed.2, ⟨call, hwhat, hremoves⟩, e.world.perform_removes hremoves⟩)
      | none => exact .inr (.inr (e.world.perform_others hadds hremoves))
  · exact .inr (.inr (Settled.refl e.world).extends)

theorem mem_pushed {x y : Ref} {l : List Ref} : y ∈ pushed x l ↔ y ∈ l ∨ y = x := by
  unfold pushed
  split_ifs with hx
  · exact ⟨.inl, fun h => h.elim id fun heq => heq ▸ hx⟩
  · rw [List.mem_append, List.mem_singleton]

/-- An event puts an item in a mode only by adding it through a mode argument that
names it. -/
theorem Ev.next_listed {e : Ev T} {item : Item} {name : String}
    (h : item.ref ∈ e.next.listed item.kind name) :
    item.ref ∈ e.world.listed item.kind name ∨
      ∃ mode, e.Adds item mode ∧ e.world.names mode name = true := by
  rcases e.next_cases with ⟨other, mode, hadds, hchanges⟩ | ⟨other, mode, -, hchanges⟩ | hextends
  · rw [hchanges.listed] at h
    split_ifs at h with hnamed
    · rcases mem_pushed.mp h with h | href
      · exact .inl h
      · cases Item.ext hnamed.1 href
        exact .inr ⟨mode, hadds, hnamed.2⟩
    · exact .inl h
  · rw [hchanges.listed] at h
    split_ifs at h
    · exact .inl (List.mem_of_mem_filter h)
    · exact .inl h
  · rw [hextends.listed] at h
    exact .inl h

theorem Ev.next_commonModes {e : Ev T} {name : String} (h : name ∈ e.world.rl.commonModes) :
    name ∈ e.next.rl.commonModes := by
  rcases e.next_cases with ⟨_, _, -, hchanges⟩ | ⟨_, _, -, hchanges⟩ | hextends
  · rwa [hchanges.commonModes]
  · rwa [hchanges.commonModes]
  · exact hextends.commonModes name h

theorem names_common {w : World T} {mode : CFRunLoopMode}
    (hmode : modeNameFromPtr mode = kCFRunLoopCommonModes) (name : String) :
    w.names mode name = true ↔ name ∈ w.rl.commonModes := by
  rw [World.names, if_pos hmode, decide_eq_true_iff]

theorem CommonThere.next {e : Ev T} (h : CommonThere e.world) : CommonThere e.next := by
  intro name hname
  rcases e.next_cases with ⟨_, _, -, hchanges⟩ | ⟨_, _, -, hchanges⟩ | hextends
  · rw [hchanges.commonModes] at hname
    exact hchanges.modes name (h name hname)
  · rw [hchanges.commonModes] at hname
    exact hchanges.modes name (h name hname)
  · rcases hextends.common name hname with hold | hthere
    · exact hextends.modes name (h name hold)
    · exact hthere

theorem InCommon.next {e : Ev T} {item : Item} (h : InCommon item e.world)
    (hadds : ∀ mode, e.Adds item mode → modeNameFromPtr mode = kCFRunLoopCommonModes) :
    InCommon item e.next := by
  intro name hlisted
  rcases Ev.next_listed hlisted with hold | ⟨mode, hadd, hnames⟩
  · exact Ev.next_commonModes (h name hold)
  · exact Ev.next_commonModes ((names_common (hadds mode hadd) name).mp hnames)

theorem Absent.next {e : Ev T} {item : Item} (h : Absent item e.world)
    (hadds : ∀ mode, ¬ e.Adds item mode) : Absent item e.next := by
  intro name hlisted
  rcases Ev.next_listed hlisted with hold | ⟨mode, hadd, -⟩
  · exact h name hold
  · exact hadds mode hadd

/-- Removed through the common modes, an item that was only there is nowhere. -/
theorem InCommon.removed {e : Ev T} {item : Item} {mode : CFRunLoopMode} (h : InCommon item e.world)
    (hremoves : e.Removes item mode) (hmode : modeNameFromPtr mode = kCFRunLoopCommonModes) :
    Absent item e.next := by
  obtain ⟨call, hwhat, hcall⟩ := hremoves
  have hchanges := e.world.perform_removes hcall
  have hnext : e.next = (e.world.perform call).1 := by rw [Ev.next, hwhat]
  intro name hlisted
  rw [hnext, hchanges.listed] at hlisted
  split_ifs at hlisted with hnamed
  · have hne := List.of_mem_filter hlisted
    simp at hne
  · exact hnamed ⟨rfl, (names_common hmode name).mpr (h name hlisted)⟩

section Runs
variable {w w' : World T} {t : List (Ev T)} {item : Item}

theorem Registers.commonThere (h : Registers w t w') (hw : CommonThere w) : CommonThere w' := by
  refine h.preserves (I := CommonThere) (fun hsettled hthere name hname => ?_) ?_ hw
  · rw [hsettled.commonModes] at hname
    exact hsettled.modes name (hthere name hname)
  · rintro e - u rfl hthere
    exact hthere.next

theorem Registers.inCommon (h : Registers w t w')
    (hadds : ∀ e ∈ t, ∀ mode, e.Adds item mode → modeNameFromPtr mode = kCFRunLoopCommonModes)
    (hw : InCommon item w) : InCommon item w' := by
  refine h.preserves (I := InCommon item) (fun hsettled hin name hname => ?_) ?_ hw
  · rw [hsettled.listed] at hname
    rw [hsettled.commonModes]
    exact hin name hname
  · rintro e he u rfl hin
    exact hin.next (hadds e he)

theorem Registers.absent (h : Registers w t w') (hadds : ∀ e ∈ t, ∀ mode, ¬ e.Adds item mode)
    (hw : Absent item w) : Absent item w' := by
  refine h.preserves (I := Absent item) (fun hsettled habsent name hname => ?_) ?_ hw
  · rw [hsettled.listed] at hname
    exact habsent name hname
  · rintro e he u rfl habsent
    exact habsent.next (hadds e he)

end Runs

/-! ### Registrations over a whole run -/

/-- The world of an event of a run, or the one it ends in. -/
def Passes {α : Type} (r : Outcome (World T) (Ev T) α) (w : World T) : Prop :=
  w = r.state ∨ ∃ e ∈ r.trace, w = e.world

/-- A list of one kind without the item. -/
def others (item : Item) (kind : Kind) (l : List Ref) : List Ref :=
  l.filter fun x => decide ((⟨kind, x⟩ : Item) ≠ item)

theorem others_pushed (item : Item) (l : List Ref) :
    others item item.kind (pushed item.ref l) = others item item.kind l := by
  unfold pushed others
  split_ifs
  · rfl
  · rw [List.filter_append, List.filter_cons_of_neg (by simp), List.filter_nil, List.append_nil]

theorem others_filter (item : Item) (l : List Ref) :
    others item item.kind (l.filter (· != item.ref)) = others item item.kind l := by
  unfold others
  rw [List.filter_filter]
  refine List.filter_congr fun x _ => ?_
  by_cases hx : x = item.ref
  · subst hx
    simp
  · simp [hx]

theorem Changes.others {w w' : World T} {item : Item} {mode : CFRunLoopMode}
    {change : List Ref → List Ref} (h : Changes w item mode change w')
    (hchange : ∀ l, RunLoop.others item item.kind (change l) = RunLoop.others item item.kind l)
    (kind : Kind) (name : String) :
    RunLoop.others item kind (w'.listed kind name) = RunLoop.others item kind (w.listed kind name) := by
  rw [h.listed]
  split_ifs with hnamed
  · rw [hnamed.1, hchange]
  · rfl

theorem CommonThere.new (clock : Clock T) : CommonThere (World.new clock) := by
  intro name hname
  have hname : name = kCFRunLoopDefaultMode ∨ name = NSEventTrackingRunLoopMode := by
    simpa [World.new, CFRunLoopInner.new] using hname
  show Option.isSome (if _ then some CFRunLoopModeInner.new else none)
  rw [if_pos (hname.imp_right .inl)]
  rfl

theorem Absent.new (clock : Clock T) (item : Item) : Absent item (World.new clock) := by
  intro name
  have hnone : (World.new clock).listed item.kind name = [] := by
    show (Option.map (fun m : CFRunLoopModeInner => m.list item.kind)
      (if _ then some CFRunLoopModeInner.new else none)).getD [] = []
    split_ifs
    · cases item.kind <;> rfl
    · rfl
  rw [hnone]
  exact List.not_mem_nil

theorem Ev.next_others {e : Ev T} {item : Item} {mode : CFRunLoopMode}
    (h : e.Adds item mode ∨ e.Removes item mode) (kind : Kind) (name : String) :
    others item kind (e.next.listed kind name) = others item kind (e.world.listed kind name) := by
  rcases h with ⟨call, hwhat, hcall⟩ | ⟨call, hwhat, hcall⟩
  · have hnext : e.next = (e.world.perform call).1 := by rw [Ev.next, hwhat]
    rw [hnext]
    exact (e.world.perform_adds hcall).others (others_pushed item) kind name
  · have hnext : e.next = (e.world.perform call).1 := by rw [Ev.next, hwhat]
    rw [hnext]
    exact (e.world.perform_removes hcall).others (others_filter item) kind name

/-- **Registrations.** In every run of a thread, at every event and at the end, no
mode lists an item twice and every common mode is there. A call that adds or
removes one item leaves the others of every mode as they are, in their order. And
once an item that was added through the common modes only is removed through the
common modes, it is in no mode, until it is added again. -/
theorem registrations_sound (p : Prog T) (clock : Clock T) :
    let r := exec p [] (World.new clock)
    (∀ w, Passes r w → (∀ kind name, (w.listed kind name).Nodup) ∧
      ∀ name ∈ w.rl.commonModes, (w.rl.modes name).isSome) ∧
    (∀ e ∈ r.trace, ∀ item mode, e.Adds item mode ∨ e.Removes item mode → ∀ kind name,
      others item kind (e.next.listed kind name) = others item kind (e.world.listed kind name)) ∧
    ∀ before e after item mode, r.trace = before ++ e :: after → e.Removes item mode →
      modeNameFromPtr mode = kCFRunLoopCommonModes →
      (∀ e' ∈ before, ∀ mode', e'.Adds item mode' → modeNameFromPtr mode' = kCFRunLoopCommonModes) →
      (∀ name, item.ref ∉ e.next.listed item.kind name) ∧
      (∀ mid e' rest, after = mid ++ e' :: rest → (∀ x ∈ mid, ∀ mode', ¬ x.Adds item mode') →
        ∀ name, item.ref ∉ e'.world.listed item.kind name) ∧
      ((∀ x ∈ after, ∀ mode', ¬ x.Adds item mode') →
        ∀ name, item.ref ∉ r.state.listed item.kind name) := by
  intro r
  have hrun : Registers (World.new clock) r.trace r.state := exec_steps p [] (World.new clock)
  have hthere := CommonThere.new clock
  refine ⟨fun w hw => ⟨fun kind name => w.listed_nodup kind name, ?_⟩,
    fun e _ item mode h => e.next_others h, ?_⟩
  · rcases hw with rfl | ⟨e, he, rfl⟩
    · exact hrun.commonThere hthere
    · obtain ⟨before, after, htrace⟩ := List.append_of_mem he
      rw [htrace] at hrun
      exact hrun.split.1.commonThere hthere
  · intro before e after item mode htrace hremoves hmode hadds
    rw [htrace] at hrun
    obtain ⟨hbefore, hafter⟩ := hrun.split
    have hin : InCommon item e.world :=
      hbefore.inCommon hadds fun name hlisted => absurd hlisted (Absent.new clock item name)
    have habsent : Absent item e.next := hin.removed hremoves hmode
    refine ⟨habsent, fun mid e' rest hmid hno => ?_, fun hno => hafter.absent hno habsent⟩
    rw [hmid] at hafter
    exact hafter.split.1.absent hno habsent

/-- A source added through the common modes, a mode that becomes common, and the
source removed through the common modes. -/
def addedThenRemoved : Prog Nat :=
  .api (.sourceCreate none) fun _ =>
    .api (.addSource true (some 0) (asPtr kCFRunLoopCommonModes)) fun _ =>
      .api (.addCommonMode true (asPtr UITrackingRunLoopMode)) fun _ =>
        .api (.removeSource true (some 0) (asPtr kCFRunLoopCommonModes)) fun _ => .done

theorem registrations_sound_removed :
    ∀ name, 0 ∉ (exec addedThenRemoved [] (World.new midnight)).state.listed .source name := by
  have hcommon : modeNameFromPtr (asPtr kCFRunLoopCommonModes) = kCFRunLoopCommonModes := by decide
  refine ((registrations_sound addedThenRemoved midnight).2.2
    ((exec addedThenRemoved [] (World.new midnight)).trace.take 3) _ [] ⟨.source, 0⟩
    (asPtr kCFRunLoopCommonModes) rfl
    ⟨.removeSource true (some 0) (asPtr kCFRunLoopCommonModes), rfl, rfl⟩ hcommon ?_).2.2
    fun x hx => nomatch hx
  rintro e he mode ⟨call, hwhat, hadds⟩
  rcases List.mem_cons.mp he with rfl | he
  · cases hwhat
    exact nomatch hadds
  rcases List.mem_cons.mp he with rfl | he
  · cases hwhat
    cases hadds
    exact hcommon
  · cases List.mem_singleton.mp he
    cases hwhat
    exact nomatch hadds

end Grafted.Cf.RunLoop
