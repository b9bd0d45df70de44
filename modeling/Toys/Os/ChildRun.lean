import Mathlib
import Toys.Os.Chain

namespace Toys.Os

open Toys.Lib Toys.FileSystem

/-!
# Kernel — the run of a child

A process that spawns a child is suspended until the child exits or faults.  During this time
the frames of the child and of its own children come and go on top of the frames of the
parent, which do not change, except that a stream that lists the files moves on when its next
file is deleted.

* `Event.Spawns`, `Event.Exits`, `Event.Deletes` — the events that matter;
* `ChildRun` — a run in which the child, or its own children, are running;
* `ChildRun.framed` — the frames in such a run;
* `childRun_returns` — the state when the child ends.
-/

/-! ### Events -/

/-- The state in which the function of a system call is called. -/
def Event.calling (k : Kernel) : Event → Kernel
  | syscall _ _ _ returnAddress stackPointer _ =>
    saveContext k returnAddress.toNat stackPointer.toNat
  | _ => k

/-- The event is a system call whose identifier is `id`, whose arguments are `a` and whose
    result is `r`. -/
def Event.Returns (k : Kernel) (n id : Nat) (a : CallArguments) (r : Nat) (e : Event) : Prop :=
  match e with
  | syscall n' id' args _ _ keys => n' = n ∧ id'.toNat = id ∧
      a = readArguments (e.calling k).memory args.toNat ∧
      ∃ k', dispatch n (e.calling k) k.currentProcess id args.toNat keys = some (k', r)
  | _ => False

/-- A successful `os_spawn`. -/
def Event.Spawns (k : Kernel) (e : Event) : Prop := ∃ n a, e.Returns k n 0 a OK

/-- The end of the current process with result `r`: an accepted `os_exit`, or a fault. -/
def Event.Exits (k : Kernel) (r : Nat) (e : Event) : Prop :=
  (∃ n a, e.Returns k n 1 a OK ∧ r = a.arg0) ∨
    e = .fault ∧ (osExit k Status.internalError.code).2 = OK ∧ r = Status.internalError.code

/-- A successful `os_delete` of the file `file`, from the disk `io`. -/
def Event.Deletes (k : Kernel) (io : BlockIo) (file : Nat) (e : Event) : Prop :=
  ∃ n a disk previous, e.Returns k n 8 a OK ∧
    diskFindFile n k.disk ((e.calling k).memory.slice a.arg0 a.arg1) 0 =
      some (disk, file, previous) ∧ io = disk.io

/-- A stream that lists the file `file` moves on to the next one when it is deleted. -/
def FileStream.Skips (io : BlockIo) (file : Nat) (s s' : FileStream) : Prop :=
  if s.mode = MODE_LIST ∧ s.fileBlock = file then
    ∃ next, NextFileRead io file next ∧ s' = { s with fileBlock := next }
  else s' = s

/-- A stream after some files were deleted. -/
def FileStream.SkipsAll : List (BlockIo × Nat) → FileStream → FileStream → Prop
  | [], s, s' => s' = s
  | d :: ds, s, s' => ∃ t, s.Skips d.1 d.2 t ∧ SkipsAll ds t s'

/-- The runs from `k₁` in which `d` processes are running above the parent, at first only the
    child, and the files `ds` are deleted. -/
inductive ChildRun (k₁ : Kernel) : (d : Nat) → (ds : List (BlockIo × Nat)) → Kernel → Prop
  | start : ChildRun k₁ 1 [] k₁
  | spawn {d : Nat} {ds : List (BlockIo × Nat)} {k k' : Kernel} {e : Event}
      (h : ChildRun k₁ d ds k) (hs : Step k e k') (hspawn : e.Spawns k) : ChildRun k₁ (d + 1) ds k'
  | exit {d r : Nat} {ds : List (BlockIo × Nat)} {k k' : Kernel} {e : Event}
      (h : ChildRun k₁ (d + 1) ds k) (hd : 0 < d) (hs : Step k e k') (hexit : e.Exits k r) :
      ChildRun k₁ d ds k'
  | delete {d file : Nat} {io : BlockIo} {ds : List (BlockIo × Nat)} {k k' : Kernel} {e : Event}
      (h : ChildRun k₁ d ds k) (hs : Step k e k') (hdelete : e.Deletes k io file) :
      ChildRun k₁ d (ds ++ [(io, file)]) k'
  | other {d : Nat} {ds : List (BlockIo × Nat)} {k k' : Kernel} {e : Event}
      (h : ChildRun k₁ d ds k) (hsafe : e.KernelSafe k) (hs : Step k e k') (hspawn : ¬ e.Spawns k)
      (hexit : ∀ r, ¬ e.Exits k r) (hdelete : ∀ io file, ¬ e.Deletes k io file) :
      ChildRun k₁ d ds k'

variable {n base r d file : Nat} {k k' k₁ : Kernel} {f : Frame} {fs fs' : List Frame} {e : Event}
  {io : BlockIo} {ds : List (BlockIo × Nat)}

/-! ### The frames after an event -/

/-- The frame of the caller in the state in which the function is called. -/
def Event.caller (f : Frame) : Event → Frame
  | syscall _ _ _ returnAddress stackPointer _ => f.saved returnAddress.toNat stackPointer.toNat
  | _ => f

@[simp] theorem Event.caller_address : (e.caller f).address = f.address := by cases e <;> rfl

/-- The frames at the time of the call. -/
theorem Event.calling_framed (h : Framed k base (f :: fs)) :
    Framed (e.calling k) base (e.caller f :: fs) := by
  cases e with
  | syscall => exact h.saveContext (UInt64.toNat_lt _) (UInt64.toNat_lt _)
  | user => exact h
  | fault => exact h

theorem Event.calling_disk : (e.calling k).disk = k.disk := by cases e <;> rfl

theorem Event.calling_heapLimit : (e.calling k).heapLimit = k.heapLimit := by cases e <;> rfl

theorem Event.calling_currentProcess : (e.calling k).currentProcess = k.currentProcess := by
  cases e <;> rfl

/-- The records of the processes are on the heap. -/
theorem Framed.address_bounds (h : Framed k base fs) (hf : f ∈ fs) :
    base ≤ f.address ∧ f.address + 80 ≤ k.heapLimit := by
  have := h.frames.endAddress_le f hf
  have := f.address_lt
  have := h.heap_le
  exact ⟨h.frames.address_ge f hf, by omega⟩

/-- Storing a result in a record on the kernel heap. -/
theorem Framed.setSavedR8_of_not_mem (h : Framed k base fs) (hf : f ∈ fs) {m : ByteMem} {j : Nat}
    (hj : j < base ∨ k.heapLimit ≤ j) : setSavedR8 m f.address r j = m j := by
  have := h.address_bounds hf
  exact ByteMem.store_of_not_mem (by omega)

/-- The handler only saves the context in the memory of the kernel. -/
theorem Event.calling_memory (hk : Framed k base (f :: fs)) {j : Nat}
    (hj : j < base ∨ k.heapLimit ≤ j) : (e.calling k).memory j = k.memory j := by
  have hcurrent : k.currentProcess = f.address := hk.current
  have := hk.address_bounds List.mem_cons_self
  cases e with
  | syscall => exact saveContext_memory (by omega)
  | user => rfl
  | fault => rfl

theorem Event.caller_streams : (e.caller f).streams = f.streams := by cases e <;> rfl

/-- The call that the handler makes, and what it does with the result. -/
theorem Step.of_syscall {id args returnAddress stackPointer : UInt64} {keys : List (Option UInt32)}
    (hs : Step k (.syscall n id args returnAddress stackPointer keys) k') :
    ∃ k₁ r, dispatch n (saveContext k returnAddress.toNat stackPointer.toNat) k.currentProcess
        id.toNat args.toNat keys = some (k₁, r) ∧
      k' = { k₁ with memory := setSavedR8 k₁.memory k.currentProcess r } := by
  cases hs with
  | syscall h =>
    simp only [syscallHandler] at h
    cases hcall : dispatch n (saveContext k returnAddress.toNat stackPointer.toNat) k.currentProcess
        id.toNat args.toNat keys with
    | none => simp [hcall] at h
    | some q =>
      simp only [hcall, Option.some_inj] at h
      exact ⟨q.1, q.2, rfl, h.symm⟩

/-- The keys that the keyboard delivers during the event. -/
def Event.keys : Event → List (Option UInt32)
  | syscall _ _ _ _ _ keys => keys
  | _ => []

/-- The statuses other than `OK` have a non-zero high byte. -/
theorem errorResult_ge {status : Status} (h : status ≠ .ok) : 2 ^ 56 ≤ errorResult status := by
  cases status <;> first | exact absurd rfl h | decide

/-- A call that is refused returns an error; another one is made by the handler. -/
theorem Step.of_returns {id : Nat} {a : CallArguments} (hs : Step k e k') (hr : e.Returns k n id a r) :
    ∃ k₁, k' = { k₁ with memory := setSavedR8 k₁.memory k.currentProcess r } ∧
      (call n (e.calling k) id a e.keys = some (k₁, r) ∨
        k₁ = e.calling k ∧ r = errorResult .invalidArgument) := by
  cases e with
  | user => exact hr.elim
  | fault => exact hr.elim
  | syscall m id args returnAddress stackPointer keys =>
    obtain ⟨k₁, r', hcall, rfl⟩ := hs.of_syscall
    obtain ⟨rfl, hid, ha, k₂, hcall'⟩ := hr
    rw [hid] at hcall
    have heq := hcall.symm.trans hcall'
    simp only [Option.some.injEq, Prod.mk.injEq] at heq
    obtain ⟨rfl, rfl⟩ := heq
    refine ⟨k₁, rfl, ?_⟩
    unfold dispatch at hcall'
    split at hcall'
    · rw [← ha] at hcall'
      exact Or.inl hcall'
    · rw [Option.some.injEq, Prod.mk.injEq] at hcall'
      exact Or.inr ⟨hcall'.1.symm, hcall'.2.symm⟩

/-- The frames under the one of the caller don't receive its result. -/
theorem FramesAt.map_withResult {m : ByteMem} {heap : Nat} (h : FramesAt m base heap (f :: fs)) :
    fs.map (Frame.withResult f.address r) = fs := by
  refine List.map_congr_left (g := id) (fun g hg => ?_) |>.trans (List.map_id fs)
  have := h.2.2.endAddress_le g hg
  have := g.address_lt
  exact Frame.withResult_of_ne (by omega)

/-- A system call that is not a write is safe. -/
theorem Event.Returns.kernelSafe {id : Nat} {a : CallArguments} (h : e.Returns k n id a r)
    (hid : id ≠ 6) : e.KernelSafe k := by
  cases e with
  | syscall n' id' =>
    obtain ⟨-, rfl, -⟩ := h
    exact fun h6 => absurd h6 hid
  | user => exact h.elim
  | fault => exact h.elim

/-- A process that ends stores nothing in the memory of the kernel. -/
theorem Event.Exits.kernelSafe (h : e.Exits k r) : e.KernelSafe k := by
  rcases h with ⟨n, a, hr, -⟩ | ⟨rfl, -, -⟩
  · exact hr.kernelSafe (by decide)
  · trivial

/-- A process that spawns another one stores nothing in the memory of the kernel. -/
theorem Event.Spawns.kernelSafe (h : e.Spawns k) : e.KernelSafe k := by
  obtain ⟨n, a, hr⟩ := h
  exact hr.kernelSafe (by decide)

/-- A process that deletes a file stores nothing in the memory of the kernel. -/
theorem Event.Deletes.kernelSafe (h : e.Deletes k io file) : e.KernelSafe k := by
  obtain ⟨n, a, -, -, hr, -⟩ := h
  exact hr.kernelSafe (by decide)

/-- The effect of a call that returns `r`. -/
theorem StepEffect.of_returns {id : Nat} {a : CallArguments} (hk : Framed k base (f :: fs))
    (h : StepEffect base k f fs e k' fs') (hr : e.Returns k n id a r) :
    ∃ k₁ fs₁, Effect n base (e.calling k) (e.caller f) fs id a k₁ r fs₁ ∧
      fs' = fs₁.map (Frame.withResult f.address r) := by
  cases h with
  | call ha hcall _ heffect =>
    obtain ⟨rfl, rfl, ha', k₂, hcall'⟩ := hr
    have hcurrent : k.currentProcess = f.address := hk.current
    rw [hcurrent] at hcall'
    have heq := hcall.symm.trans hcall'
    simp only [Option.some.injEq, Prod.mk.injEq] at heq
    obtain ⟨rfl, rfl⟩ := heq
    obtain rfl := ha.trans ha'.symm
    exact ⟨_, _, heffect, rfl⟩
  | user => exact hr.elim
  | shellFault => exact hr.elim
  | fault => exact hr.elim

/-- A successful `os_spawn` adds the frame of the child. -/
theorem StepEffect.of_spawns (hk : Framed k base (f :: fs)) (h : StepEffect base k f fs e k' fs')
    (hspawn : e.Spawns k) :
    ∃ p, fs' = ⟨k.heap, p, []⟩ :: (e.caller f).withResult f.address OK :: fs := by
  obtain ⟨n, a, hr⟩ := hspawn
  obtain ⟨k₁, fs₁, heffect, rfl⟩ := h.of_returns hk hr
  have hcaller := Event.calling_framed (e := e) hk
  have hheap : (e.calling k).heap = k.heap := by cases e <;> rfl
  have hmap := hcaller.frames.map_withResult (r := OK)
  have hend := hcaller.frames.endAddress_le (e.caller f) (by simp)
  have hlt := (e.caller f).address_lt
  rw [Event.caller_address] at hmap hlt
  clear h hr
  generalize e.calling k = k₀ at *
  generalize hok : OK = r at heffect
  cases heffect with
  | spawn hid hreads hp hmem =>
    rw [List.map_cons, List.map_cons, hmap, Frame.withResult_of_ne (by simp only; omega), hheap]
    exact ⟨_, rfl⟩
  | quiet hr => exact absurd rfl (hr hok.symm).1
  | _ => omega

/-- The end of the current process removes its frame. -/
theorem StepEffect.of_exits (hk : Framed k base (f :: fs)) (h : StepEffect base k f fs e k' fs')
    (hexit : e.Exits k r) :
    ∃ g gs, fs = g :: gs ∧ fs' = { g with process := { g.process with savedR8 := r } } :: gs := by
  rcases hexit with ⟨n, a, hr, rfl⟩ | ⟨rfl, hok, rfl⟩
  · obtain ⟨k₁, fs₁, heffect, rfl⟩ := h.of_returns hk hr
    have hmap := hk.frames.map_withResult (r := OK)
    have hends := hk.frames.2.2.endAddress_le
    clear h hr
    generalize e.calling k = k₀ at *
    generalize hok : OK = r at heffect
    cases heffect with
    | @exit g gs hid hfs hlt =>
      subst hfs
      rw [List.map_cons, List.cons.injEq] at hmap
      have hend := hends g (by simp)
      have haddress := g.address_lt
      rw [List.map_cons, hmap.2, Frame.withResult_of_ne (by simp only; omega)]
      exact ⟨g, gs, rfl, rfl⟩
    | quiet hr => exact absurd rfl (hr hok.symm).2.1
    | _ => omega
  · cases h with
    | shellFault hfs =>
      subst hfs
      have hparent : f.process.parent = 0 := hk.frames.2.1.parent
      simp only [osExit, hk.process_eq, hparent, if_true] at hok
      exact absurd hok (by decide)
    | fault hfs => exact ⟨_, _, hfs, rfl⟩

/-- The result of a child does not change which streams a deletion moves. -/
theorem Frame.Skips.withResult {address : Nat} {g g' : Frame} (h : g.Skips io file g') :
    (g.withResult address r).Skips io file (g'.withResult address r) := by
  refine ⟨by simp [h.address], ?_, by simpa using h.streams⟩
  unfold Frame.withResult
  rw [h.address]
  split
  · simp only [h.process]
  · exact h.process

/-- A successful `os_delete` moves the streams on. -/
theorem StepEffect.of_deletes (hk : Framed k base (f :: fs)) (h : StepEffect base k f fs e k' fs')
    (hdelete : e.Deletes k io file) :
    ∃ f' gs, fs' = f' :: gs ∧ List.Forall₂ (Frame.Skips io file) fs gs := by
  obtain ⟨n, a, disk, previous, hr, hfind, rfl⟩ := hdelete
  obtain ⟨k₁, fs₁, heffect, rfl⟩ := h.of_returns hk hr
  have hdisk : (e.calling k).disk = k.disk := by cases e <;> rfl
  have hmap := hk.frames.map_withResult (r := OK)
  rw [← hdisk] at hfind
  clear h hr
  generalize e.calling k = k₀ at *
  generalize hok : OK = r at heffect
  cases heffect with
  | delete hid hfind' hfile hallows hskips hreads hdel hmem =>
    have heq := hfind.symm.trans hfind'
    simp only [Option.some.injEq, Prod.mk.injEq] at heq
    obtain ⟨rfl, rfl, -⟩ := heq
    cases hskips with
    | cons hf hfs =>
      refine ⟨_, _, List.map_cons, ?_⟩
      rw [← hmap, List.forall₂_map_left_iff, List.forall₂_map_right_iff]
      exact hfs.imp fun _ _ hg => hg.withResult
  | quiet hr => exact absurd rfl (hr hok.symm).2.2
  | _ => omega

/-- Another event only changes the frame of the current process. -/
theorem StepEffect.of_other (hk : Framed k base (f :: fs)) (h : StepEffect base k f fs e k' fs')
    (hspawn : ¬ e.Spawns k) (hexit : ∀ r, ¬ e.Exits k r)
    (hdelete : ∀ io file, ¬ e.Deletes k io file) : ∃ f', fs' = f' :: fs := by
  cases h with
  | user => exact ⟨f, rfl⟩
  | @call n idWord args returnAddress stackPointer keys k₁ r fs₁ a ha hcall _ heffect =>
    have hcurrent : k.currentProcess = f.address := hk.current
    have hmap := hk.frames.map_withResult (r := r)
    rw [← hcurrent] at hcall
    generalize hid : idWord.toNat = id at hcall heffect
    cases heffect with
    | spawn h0 =>
      subst h0
      exact absurd ⟨_, _, rfl, hid, ha, _, hcall⟩ hspawn
    | exit h1 =>
      subst h1
      exact absurd (Or.inl ⟨_, _, ⟨rfl, hid, ha, _, hcall⟩, rfl⟩) (hexit _)
    | delete h8 hfind =>
      subst h8
      exact absurd ⟨_, _, _, _, ⟨rfl, hid, ha, _, hcall⟩, hfind, rfl⟩ (hdelete _ _)
    | _ => exact ⟨_, by rw [List.map_cons, hmap]⟩
  | shellFault hfs => exact ⟨f, by rw [hfs]⟩
  | fault hfs =>
    subst hfs
    exact absurd (Or.inr ⟨rfl, congrArg Prod.snd (osExit_eq hk (by decide)), rfl⟩) (hexit _)

/-! ### The run -/

/-- A stream after some files were deleted. -/
def StreamState.SkipsAll : List (BlockIo × Nat) → StreamState → StreamState → Prop
  | [], s, s' => s' = s
  | d :: ds, s, s' => ∃ t, s.Skips d.1 d.2 t ∧ SkipsAll ds t s'

/-- One more deletion. -/
theorem StreamState.SkipsAll.concat {s t u : StreamState} (h : s.SkipsAll ds t)
    (h' : t.Skips io file u) : s.SkipsAll (ds ++ [(io, file)]) u := by
  induction ds generalizing s with
  | nil =>
    obtain rfl : t = s := h
    exact ⟨u, h', rfl⟩
  | cons d ds ih =>
    obtain ⟨v, hv, h⟩ := h
    exact ⟨v, hv, ih h⟩

/-- The frame of a suspended process after some files were deleted. -/
structure Frame.Kept (ds : List (BlockIo × Nat)) (f f' : Frame) : Prop where
  address : f'.address = f.address
  process : f'.process = f.process
  streams : List.Forall₂ (StreamState.SkipsAll ds) f.streams f'.streams

/-- Without a deletion, a frame is kept as it is. -/
theorem Frame.Kept.refl (f : Frame) : f.Kept [] f :=
  ⟨rfl, rfl, List.forall₂_same.mpr fun _ _ => rfl⟩

/-- Two lists related through a third one. -/
theorem forall₂_comp {α β γ : Type*} {R : α → β → Prop} {S : β → γ → Prop}
    {T : α → γ → Prop} {l₁ : List α} {l₂ : List β} {l₃ : List γ} (h : List.Forall₂ R l₁ l₂)
    (h' : List.Forall₂ S l₂ l₃) (hT : ∀ a b c, R a b → S b c → T a c) : List.Forall₂ T l₁ l₃ := by
  induction h generalizing l₃ with
  | nil =>
    cases h'
    exact List.Forall₂.nil
  | cons hab _ ih =>
    cases h' with
    | cons hbc h' => exact List.Forall₂.cons (hT _ _ _ hab hbc) (ih h')

/-- One more deletion. -/
theorem Frame.Kept.concat {f' f'' : Frame} (h : f.Kept ds f') (h' : f'.Skips io file f'') :
    f.Kept (ds ++ [(io, file)]) f'' :=
  ⟨h'.address.trans h.address, h'.process.trans h.process,
    forall₂_comp h.streams h'.streams fun _ _ _ hs hs' => hs.concat hs'⟩

/-- A list related to two lists splits in the same way. -/
theorem forall₂_append_left {α β : Type*} {R : α → β → Prop} {l₁ l₂ : List α} {l : List β}
    (h : List.Forall₂ R (l₁ ++ l₂) l) :
    ∃ m₁ m₂, l = m₁ ++ m₂ ∧ List.Forall₂ R l₁ m₁ ∧ List.Forall₂ R l₂ m₂ := by
  induction l₁ generalizing l with
  | nil => exact ⟨[], l, rfl, List.Forall₂.nil, h⟩
  | cons a l₁ ih =>
    cases h with
    | cons hab h =>
      obtain ⟨m₁, m₂, rfl, h₁, h₂⟩ := ih h
      exact ⟨_ :: m₁, m₂, rfl, List.Forall₂.cons hab h₁, h₂⟩

/-- The child has not ended. -/
theorem ChildRun.depth_pos (h : ChildRun k₁ d ds k) : 0 < d := by
  induction h with
  | exit _ hd => exact hd
  | _ => omega

/-- The frames in the run of a child: the ones above the parent, and the suspended ones. -/
theorem ChildRun.framed {c : Frame} (h : ChildRun k₁ d ds k) (hk : Framed k₁ base (c :: fs)) :
    ∃ cs gs, Framed k base (cs ++ gs) ∧ cs.length = d ∧ List.Forall₂ (Frame.Kept ds) fs gs := by
  induction h with
  | start => exact ⟨[c], fs, hk, rfl, List.forall₂_same.mpr fun g _ => Frame.Kept.refl g⟩
  | spawn h hs hspawn ih =>
    obtain ⟨cs, gs, hframed, hlen, hkept⟩ := ih
    obtain ⟨f, cs, rfl⟩ := List.exists_cons_of_length_pos (hlen ▸ h.depth_pos)
    obtain ⟨fs', hframed', heffect⟩ := step_effect hframed hspawn.kernelSafe hs
    obtain ⟨p, rfl⟩ := heffect.of_spawns hframed hspawn
    exact ⟨_ :: _ :: cs, gs, hframed', by simpa using hlen, hkept⟩
  | exit h hd hs hexit ih =>
    obtain ⟨cs, gs, hframed, hlen, hkept⟩ := ih
    obtain ⟨f, cs, rfl⟩ := List.exists_cons_of_length_pos (by omega : 0 < cs.length)
    rw [List.length_cons, Nat.add_right_cancel_iff] at hlen
    obtain ⟨g, cs, rfl⟩ := List.exists_cons_of_length_pos (hlen ▸ hd)
    obtain ⟨fs', hframed', heffect⟩ := step_effect hframed hexit.kernelSafe hs
    obtain ⟨g', gs', heq, rfl⟩ := heffect.of_exits hframed hexit
    obtain ⟨rfl, rfl⟩ := List.cons.inj heq
    exact ⟨_ :: cs, gs, hframed', by simpa using hlen, hkept⟩
  | delete h hs hdelete ih =>
    obtain ⟨cs, gs, hframed, hlen, hkept⟩ := ih
    obtain ⟨f, cs, rfl⟩ := List.exists_cons_of_length_pos (hlen ▸ h.depth_pos)
    obtain ⟨fs', hframed', heffect⟩ := step_effect hframed hdelete.kernelSafe hs
    obtain ⟨f', gs', rfl, hskips⟩ := heffect.of_deletes hframed hdelete
    obtain ⟨cs', gs', rfl, hcs, hgs⟩ := forall₂_append_left hskips
    exact ⟨f' :: cs', gs', hframed', by simpa [← hcs.length_eq] using hlen,
      forall₂_comp hkept hgs fun _ _ _ hg hg' => hg.concat hg'⟩
  | other h hsafe hs hspawn hexit hdelete ih =>
    obtain ⟨cs, gs, hframed, hlen, hkept⟩ := ih
    obtain ⟨f, cs, rfl⟩ := List.exists_cons_of_length_pos (hlen ▸ h.depth_pos)
    obtain ⟨fs', hframed', heffect⟩ := step_effect hframed hsafe hs
    obtain ⟨f', rfl⟩ := heffect.of_other hframed hspawn hexit hdelete
    exact ⟨f' :: cs, gs, hframed', hlen, hkept⟩

/-! ### The end of the child -/

/-- The frames of a reachable state. -/
theorem Reachable.framed (h : Reachable Event.KernelSafe k) :
    ∃ base f fs, Framed k base (f :: fs) := by
  induction h with
  | boot h =>
    obtain ⟨base, p, hboot⟩ := h.booting
    exact ⟨base, _, _, hboot.framed⟩
  | step h hsafe hs ih =>
    obtain ⟨base, f, fs, hframed⟩ := ih
    obtain ⟨fs', hframed', heffect⟩ := step_effect hframed hsafe hs
    obtain ⟨f', fs', rfl⟩ := List.exists_cons_of_ne_nil heffect.ne_nil
    exact ⟨base, f', fs', hframed'⟩

/-- The state `k'` in which a child returns `r` to its parent, which called `os_spawn` in the
    state `k`: only the result of the parent, and the streams that list the files `ds` deleted
    meanwhile, have changed. -/
structure ReturnsTo (k : Kernel) (ds : List (BlockIo × Nat)) (r : Nat) (k' : Kernel) : Prop where
  current : k'.currentProcess = k.currentProcess
  result : (k'.process k'.currentProcess).savedR8 = r
  heap : k'.heap = k.heap
  chain : ∃ ps, k.Chain ps ∧ k'.Chain ps ∧ ∀ p ∈ ps,
    k'.process p =
      (if p = k.currentProcess then { k.process p with savedR8 := r } else k.process p) ∧
    ∃ ss, k.Streams p ss ∧ k'.Streams p ss ∧ ∀ s ∈ ss, (k.stream s).SkipsAll ds (k'.stream s)

/-- The frame of a process before and after the run of a child of the process `parent`. -/
structure Frame.Resumed (parent : Nat) (ds : List (BlockIo × Nat)) (r : Nat) (f f' : Frame) :
    Prop where
  address : f'.address = f.address
  process : f'.process =
    if f.address = parent then { f.process with savedR8 := r } else f.process
  streams : List.Forall₂ (StreamState.SkipsAll ds) f.streams f'.streams

/-- The deletions move the record of a stream as they move its state. -/
theorem StreamState.SkipsAll.record {s s' : StreamState} {next : Nat} (h : s.SkipsAll ds s') :
    (s.record next).SkipsAll ds (s'.record next) := by
  induction ds generalizing s with
  | nil =>
    obtain rfl : s' = s := h
    rfl
  | cons d ds ih =>
    obtain ⟨t, ht, h⟩ := h
    refine ⟨t.record next, ?_, ih h⟩
    unfold StreamState.Skips at ht
    unfold FileStream.Skips
    split at ht
    · obtain ⟨next', hnext, rfl⟩ := ht
      rw [if_pos (by assumption)]
      exact ⟨next', hnext, rfl⟩
    · subst ht
      rw [if_neg (by assumption)]

/-- Frames that are resumed give the kernel to which the call returns. -/
theorem Frame.Resumed.returnsTo {k₃ : Kernel} {fs₃ : List Frame} (hk : Framed k base (f :: fs))
    (hk₃ : Framed k₃ base fs₃)
    (h : List.Forall₂ (Frame.Resumed f.address ds r) (f :: fs) fs₃) : ReturnsTo k ds r k₃ := by
  have hcurrent : k.currentProcess = f.address := hk.current
  -- the processes of the chain are at the same addresses, and so are their streams
  have haddress : fs₃.map Frame.address = (f :: fs).map Frame.address := by
    rw [← List.forall₂_eq_eq_eq, List.forall₂_map_left_iff, List.forall₂_map_right_iff]
    exact (h.imp fun _ _ hf => hf.address).flip
  obtain ⟨f₃, gs, hf, hgs, rfl⟩ := List.forall₂_cons_left_iff.mp h
  have hcurrent₃ : k₃.currentProcess = f₃.address := hk₃.current
  refine ⟨by rw [hcurrent, hcurrent₃, hf.address], ?_, ?_, (f :: fs).map Frame.address, hk.chain,
    haddress ▸ hk₃.chain, fun p hp => ?_⟩
  · rw [hcurrent₃, hk₃.process List.mem_cons_self, hf.process, if_pos rfl]
  · rw [hk.frames.1, hk₃.frames.1, Frame.endAddress, Frame.endAddress, hf.address,
      hf.streams.length_eq]
  · obtain ⟨g, hg, rfl⟩ := List.mem_map.mp hp
    obtain ⟨i, hi, rfl⟩ := List.getElem_of_mem hg
    have hi₃ : i < (f₃ :: gs).length := h.length_eq ▸ hi
    have hgg := h.get hi hi₃
    simp only [List.get_eq_getElem] at hgg
    generalize (f :: fs)[i] = g at *
    have hg₃ : (f₃ :: gs)[i] ∈ f₃ :: gs := List.getElem_mem _
    generalize (f₃ :: gs)[i] = g₃ at *
    have hlen := hgg.streams.length_eq
    have hstreams : g₃.streamAddresses = g.streamAddresses := by
      unfold Frame.streamAddresses Frame.streamAddress
      rw [hlen, hgg.address]
    refine ⟨?_, g.streamAddresses, hk.streams hg, ?_, fun s hs => ?_⟩
    · rw [← hgg.address, hk₃.process hg₃, hgg.address, hk.process hg, hcurrent]
      exact hgg.process
    · rw [← hgg.address, ← hstreams]
      exact hk₃.streams hg₃
    · obtain ⟨j, hj, rfl⟩ := List.mem_map.mp hs
      have hj : j < g.streams.length := List.mem_range.mp hj
      have hnext : g₃.nextStream j = g.nextStream j := by
        unfold Frame.nextStream Frame.streamAddress
        rw [hgg.address, streamsPtr_congr]
        rw [List.length_drop, List.length_drop, hlen]
      have hread := hk.stream hg (List.getElem?_eq_getElem hj)
      have hread₃ := hk₃.stream hg₃ (List.getElem?_eq_getElem (hlen ▸ hj))
      have haddr : g₃.streamAddress j = g.streamAddress j := by
        unfold Frame.streamAddress
        rw [hgg.address]
      rw [haddr, hnext] at hread₃
      rw [hread, hread₃]
      exact (hgg.streams.get hj (hlen ▸ hj)).record

/-- From a reachable state, once the child of a successful `os_spawn` ends, whatever it did and
    spawned, the caller gets the result of the child, with its records as they were but for the
    files that were deleted. The records never overlap. -/
theorem childRun_returns (h : Reachable Event.KernelSafe k) : k.Disjoint ∧
    ∀ {e : Event} {k₁ : Kernel} {ds : List (BlockIo × Nat)} {k₂ : Kernel} {e' : Event} {r : Nat}
      {k₃ : Kernel}, Step k e k₁ → e.Spawns k → ChildRun k₁ 1 ds k₂ → Step k₂ e' k₃ → e'.Exits k₂ r →
      ReturnsTo (e.calling k) ds r k₃ := by
  obtain ⟨base, f, fs, hframed⟩ := h.framed
  refine ⟨hframed.objects_disjoint, fun {e k₁ ds k₂ e' r k₃} hs hspawn hrun hs' hexit => ?_⟩
  have hcaller := Event.calling_framed (e := e) hframed
  -- the child starts
  obtain ⟨fs₁, hframed₁, heffect₁⟩ := step_effect hframed hspawn.kernelSafe hs
  obtain ⟨p, rfl⟩ := heffect₁.of_spawns hframed hspawn
  -- it runs
  obtain ⟨cs, gs, hframed₂, hlen, hkept⟩ := hrun.framed hframed₁
  obtain ⟨c, rfl⟩ := List.length_eq_one_iff.mp hlen
  obtain ⟨g, gs, hg, hgs, rfl⟩ := List.forall₂_cons_left_iff.mp hkept
  -- it ends
  obtain ⟨fs₃, hframed₃, heffect₃⟩ := step_effect hframed₂ hexit.kernelSafe hs'
  obtain ⟨g', gs', heq, rfl⟩ := heffect₃.of_exits hframed₂ hexit
  obtain ⟨rfl, rfl⟩ := List.cons.inj heq
  refine Frame.Resumed.returnsTo hcaller hframed₃ (List.Forall₂.cons ⟨?_, ?_, ?_⟩ ?_)
  · rw [hg.address, Frame.withResult_address]
  · rw [if_pos rfl, hg.process, Frame.withResult, if_pos Event.caller_address]
  · simpa using hg.streams
  · refine (List.forall₂_and_left _ _ |>.mpr ⟨fun g' hg' => ?_, hgs⟩).imp fun a b hab =>
      ⟨hab.2.address, hab.2.process.trans (if_neg hab.1).symm, hab.2.streams⟩
    have := hcaller.frames.2.2.endAddress_le g' hg'
    have := g'.address_lt
    omega

/-- The small system when its shell is about to spawn another shell. -/
def spawningKernel : Kernel := shellKernel.storeBytes 4096 (spawnBytes 8192 4096)

/-- The shell writes the arguments of its call. -/
theorem spawningKernel_step :
    Step shellKernel (.user (shellKernel.memory.copyIn 4096 (spawnBytes 8192 4096))) spawningKernel :=
  Step.storeBytes fun page h1 h2 => by
    obtain rfl : page = 1 := le_antisymm (le_trans h2 (by decide +kernel)) h1
    decide +kernel

/-- The call of `os_spawn`. -/
def spawnEvent : Event := .syscall 2 0 4104 4096 20480 []

/-- The small system when the second shell starts. -/
def spawnedKernel : Kernel :=
  (syscallHandler 2 spawningKernel 0 4104 4096 20480 []).get
    (by decide +kernel)

/-- The shell spawns its child. -/
theorem spawnedKernel_step : Step spawningKernel spawnEvent spawnedKernel :=
  Step.syscall (Option.some_get _).symm

/-- What the child stores in its memory: the arguments of a call of `os_open`, of a call of `os_spawn`,
    the word that `output_p` points to, the argument of a call of `os_exit`, and the name of the file. -/
def childBytes : List UInt8 :=
  [8280, 5, MODE_READ, 12288, 8280, 5, 8192, 0, 8264, 8192, 7].flatMap wordBytes ++ [115, 104, 101, 108, 108]

/-- The small system when the child has stored these bytes. -/
def childKernel : Kernel := spawnedKernel.storeBytes 8192 childBytes

/-- The child writes the arguments of its calls. -/
theorem childKernel_step :
    Step spawnedKernel (.user (spawnedKernel.memory.copyIn 8192 childBytes)) childKernel :=
  Step.storeBytes fun page h1 h2 => by
    obtain rfl : page = 2 := le_antisymm (le_trans h2 (by decide +kernel)) h1
    decide +kernel

/-- The child opens the file "shell". -/
def childOpens : Event := .syscall 3 4 8192 8192 20480 []

/-- The child spawns a shell. -/
def childSpawns : Event := .syscall 3 0 8216 8192 20480 []

/-- The child ends with the result 7. -/
def childExits : Event := .syscall 3 1 8272 8192 20480 []

/-- The small system when the child has opened the file. -/
def childOpened : Kernel :=
  (syscallHandler 3 childKernel 4 8192 8192 20480 []).get
    (by decide +kernel)

/-- The small system when the child of the child starts. -/
def grandchildKernel : Kernel :=
  (syscallHandler 3 childOpened 0 8216 8192 20480 []).get
    (by decide +kernel)

/-- The small system when the child has ended. -/
def childExited : Kernel :=
  (syscallHandler 3 (hardFaultHandler grandchildKernel) 1 8272 8192 20480 []).get
    (by decide +kernel)

/-- The child opens its file. -/
theorem childOpened_step : Step childKernel childOpens childOpened :=
  Step.syscall (Option.some_get _).symm

/-- The child spawns a child of its own. -/
theorem grandchildKernel_step : Step childOpened childSpawns grandchildKernel :=
  Step.syscall (Option.some_get _).symm

/-- The child exits, once its own child has made a fault. -/
theorem childExited_step : Step (hardFaultHandler grandchildKernel) childExits childExited :=
  Step.syscall (Option.some_get _).symm

/-- The result of a call, by its execution. -/
theorem Event.returns_of_dispatch {id args returnAddress stackPointer : UInt64}
    {keys : List (Option UInt32)}
    (h : (dispatch n ((Event.syscall n id args returnAddress stackPointer keys).calling k)
      k.currentProcess id.toNat args.toNat keys).map Prod.snd = some r) :
    (Event.syscall n id args returnAddress stackPointer keys).Returns k n id.toNat
      (readArguments ((Event.syscall n id args returnAddress stackPointer keys).calling k).memory
        args.toNat) r := by
  obtain ⟨⟨k', r⟩, heq, rfl⟩ := Option.map_eq_some_iff.mp h
  exact ⟨rfl, rfl, rfl, k', heq⟩

/-- The call of the shell spawns a child. -/
theorem spawnEvent_spawns : spawnEvent.Spawns spawningKernel :=
  ⟨2, _, Event.returns_of_dispatch (by decide +kernel)⟩

/-- The call of the child spawns a child. -/
theorem childSpawns_spawns : childSpawns.Spawns childOpened :=
  ⟨3, _, Event.returns_of_dispatch (by decide +kernel)⟩

/-- An event that is neither a call of `os_spawn`, `os_exit` or `os_delete` nor a fault. -/
theorem ChildRun.quiet {id args returnAddress stackPointer : UInt64} {keys : List (Option UInt32)}
    (h : ChildRun k₁ d ds k) (hs : Step k (.syscall n id args returnAddress stackPointer keys) k')
    (hid : id.toNat ≠ 0 ∧ id.toNat ≠ 1 ∧ id.toNat ≠ 8 ∧ id.toNat ≠ 6) : ChildRun k₁ d ds k' := by
  have hsafe : Event.KernelSafe k (.syscall n id args returnAddress stackPointer keys) :=
    fun h6 => absurd h6 hid.2.2.2
  refine h.other hsafe hs ?_ ?_ ?_
  · rintro ⟨n', a, -, hspawn, -⟩
    exact hid.1 hspawn
  · rintro r (⟨n', a, ⟨-, hexit, -⟩, -⟩ | ⟨hfault, -⟩)
    · exact hid.2.1 hexit
    · cases hfault
  · rintro io file ⟨n', a, disk, previous, ⟨-, hdelete, -⟩, -⟩
    exact hid.2.2.1 hdelete

/-- The child opens a file, and spawns a child that faults, before it ends. -/
theorem childRun_returns_shell : ReturnsTo (spawnEvent.calling spawningKernel) [] 7 childExited := by
  have hreach : Reachable Event.KernelSafe spawningKernel := by
    refine Reachable.step (Reachable.boot shellKernel_booted) (fun j hj => ?_) spawningKernel_step
    exact ByteMem.copyIn_of_not_mem (Or.inl (lt_of_lt_of_le hj (by decide +kernel)))
  have hstored : ChildRun spawnedKernel 1 [] childKernel := by
    refine ChildRun.start.other (fun j hj => ?_) childKernel_step ?_ ?_ ?_
    · exact ByteMem.copyIn_of_not_mem (Or.inl (lt_of_lt_of_le hj (by decide +kernel)))
    · rintro ⟨n', a, hreturns⟩
      exact hreturns
    · rintro r (⟨n', a, hreturns, -⟩ | ⟨hfault, -⟩)
      · exact hreturns
      · cases hfault
    · rintro io file ⟨n', a, disk, previous, hreturns, -⟩
      exact hreturns
  have hopened : ChildRun spawnedKernel 1 [] childOpened :=
    hstored.quiet childOpened_step (by decide)
  have hspawned : ChildRun spawnedKernel 2 [] grandchildKernel :=
    hopened.spawn grandchildKernel_step childSpawns_spawns
  have hfaulted : ChildRun spawnedKernel 1 [] (hardFaultHandler grandchildKernel) :=
    hspawned.exit (by decide) Step.fault (Or.inr ⟨rfl, by decide +kernel, rfl⟩)
  have hexits : childExits.Exits (hardFaultHandler grandchildKernel) 7 :=
    Or.inl ⟨3, _, Event.returns_of_dispatch (by decide +kernel), by decide +kernel⟩
  exact (childRun_returns hreach).2 spawnedKernel_step spawnEvent_spawns hfaulted childExited_step hexits

end Toys.Os
