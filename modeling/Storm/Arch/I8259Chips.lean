import Storm.Arch.I8259
import Storm.Library.InterruptController

/-! # The interrupt controllers behind the ports

`chipsAfter` is what the two controllers make of a history. Whatever state they are in before
`i8259_init`, afterwards they stay what the software takes them for: `pics_agree`, for every
sequence of calls that enable lines, disable lines and send ends of interrupts. -/

namespace Storm

open ByteMemory

/-- The two controllers. -/
abbrev Chips := Pic → InterruptController.Chip

/-- What the controllers make of an output: the ports of the master are 0x20 and 0x21, those of the
slave 0xA0 and 0xA1. -/
def chipsStep (chips : Chips) : IrqEvent → Chips
  | .out port byte =>
      if port = 0x20 then Function.update chips .master ((chips .master).command byte)
      else if port = 0x21 then Function.update chips .master ((chips .master).data byte)
      else if port = 0xA0 then Function.update chips .slave ((chips .slave).command byte)
      else if port = 0xA1 then Function.update chips .slave ((chips .slave).data byte)
      else chips
  | .setImr .. | .setFn .. | .setArg .. | .call .. => chips

/-- The controllers after what the history records. -/
def chipsAfter (chips : Chips) (trace : List IrqEvent) : Chips := trace.foldl chipsStep chips

/-- The calls of the functions of `i8259.c`. -/
inductive PicCall where
  /-- `i8259_enable_irq(irq)`. -/
  | enable (irq : Byte)
  /-- `i8259_disable_irq(irq)`. -/
  | disable (irq : Byte)
  /-- `i8259_send_eoi(irq)`. -/
  | sendEoi (irq : Byte)
  deriving DecidableEq, Repr

namespace PicCall

/-- Lines that are enabled or disabled have numbers below 16. -/
def Valid : PicCall → Prop
  | .enable irq | .disable irq => irq < i8259NoIrqs
  | .sendEoi _ => True

/-- Run a call. -/
def exec (s : PicState) : PicCall → Except String PicState
  | .enable irq => i8259EnableIrq irq s
  | .disable irq => i8259DisableIrq irq s
  | .sendEoi irq => .ok (i8259SendEoi irq s)

/-- Whether a call enables or disables a line. -/
def switches (n : Byte) : PicCall → Option Bool
  | .enable irq => if irq = n then some true else none
  | .disable irq => if irq = n then some false else none
  | .sendEoi _ => none

end PicCall

/-- Run calls one after the other. -/
def runPicCalls (calls : List PicCall) (s : PicState) : Except String PicState :=
  calls.foldlM PicCall.exec s

/-- The line is enabled: the last call for it, if there was one, enabled it. `i8259_init` enables
the line of the slave. -/
def Enabled (n : Byte) (calls : List PicCall) : Prop :=
  ((calls.filterMap (PicCall.switches n)).getLast?).getD (decide (n = i8259SlaveIrq)) = true

/-- The controllers are as `i8259_init` has programmed them, except for their masks and the lines in
service. -/
structure Programmed (chips : Chips) : Prop where
  /-- The initialization is complete. -/
  ready : ∀ pic, (chips pic).awaited = []
  /-- The vectors of the lines begin at 32 and at 40. -/
  vectors : (chips .master).vector 0 = 32 ∧ (chips .slave).vector 0 = 40
  /-- The master knows that there is a slave on its line 2, and so does the slave. -/
  cascade : (chips .master).icw3 = 0b100 ∧ (chips .slave).icw3 = 2

/-- The software's view of the controllers, after these calls, is right. -/
structure PicsAgree (calls : List PicCall) (s : PicState) (chips : Chips) : Prop where
  programmed : Programmed chips
  /-- The mask of each controller is the one that the software keeps. -/
  mask : ∀ pic, (chips pic).imr = (s.pics pic).imr
  /-- A line is not masked exactly when it is enabled. -/
  lines : ∀ n < i8259NoIrqs,
    (chips (picOf n)).imr.getLsbD (lineOf n).toNat = false ↔ Enabled n calls

/-- The controllers have their ports. -/
def PicState.Wired (s : PicState) : Prop :=
  ∀ pic, (s.pics pic).cmdPort = cmdPortOf pic ∧ (s.pics pic).dataPort = dataPortOf pic

variable {s s₀ : PicState} {chips : Chips} {pic : Pic} {irq n imr byte : Byte}
  {calls : List PicCall} {trace events : List IrqEvent}

/-- More history. -/
theorem chipsAfter_append : chipsAfter chips (trace ++ events) =
    chipsAfter (chipsAfter chips trace) events := List.foldl_append

/-- A byte at the command port of a controller. -/
theorem chipsStep_cmdPort : chipsStep chips (.out (cmdPortOf pic) byte) =
    Function.update chips pic ((chips pic).command byte) := by
  cases pic <;> rfl

/-- A byte at the data port of a controller. -/
theorem chipsStep_dataPort : chipsStep chips (.out (dataPortOf pic) byte) =
    Function.update chips pic ((chips pic).data byte) := by
  cases pic <;> rfl

/-! ## One call -/

/-- `pic->imr = imr` and the output of the mask. -/
def updateMask (pic : Pic) (imr : Byte) (s : PicState) : PicState :=
  i8259PicUpdateImr pic (setImr pic imr s)

/-- `i8259_enable_irq` updates the mask of the line's controller. -/
theorem i8259EnableIrq_eq_updateMask (hirq : irq < i8259NoIrqs) : i8259EnableIrq irq s =
    .ok (updateMask (picOf irq) (clearLine (s.pics (picOf irq)).imr (lineOf irq)) s) := by
  rw [i8259EnableIrq, decide_eq_true hirq, assert_true, picOf, lineOf]
  by_cases h : 8 ≤ irq
  · simp only [h, if_true]
    rfl
  · simp only [h, if_false]
    rfl

/-- So does `i8259_disable_irq`. -/
theorem i8259DisableIrq_eq_updateMask (hirq : irq < i8259NoIrqs) : i8259DisableIrq irq s =
    .ok (updateMask (picOf irq) (setLine (s.pics (picOf irq)).imr (lineOf irq)) s) := by
  rw [i8259DisableIrq, decide_eq_true hirq, assert_true, picOf, lineOf]
  by_cases h : 8 ≤ irq
  · simp only [h, if_true]
    rfl
  · simp only [h, if_false]
    rfl

/-- What an update of a mask adds to the history. -/
theorem updateMask_trace (hs : s.Wired) : (updateMask pic imr s).trace =
    s.trace ++ [.setImr pic imr, .out (dataPortOf pic) imr] := by
  simp [updateMask, i8259PicUpdateImr, i8259PicWriteData, ioWriteByte, setImr, (hs pic).2]

/-- The masks after an update. -/
theorem updateMask_imr (pic' : Pic) : ((updateMask pic imr s).pics pic').imr =
    if pic' = pic then imr else (s.pics pic').imr := by
  by_cases h : pic' = pic
  · subst h
    simp [updateMask, i8259PicUpdateImr, i8259PicWriteData, ioWriteByte, setImr]
  · simp [updateMask, i8259PicUpdateImr, i8259PicWriteData, ioWriteByte, setImr, h]

/-- The ports stay the same. -/
theorem PicState.Wired.updateMask (hs : s.Wired) : (updateMask pic imr s).Wired := by
  intro pic'
  by_cases h : pic' = pic
  · subst h
    simpa [Storm.updateMask, i8259PicUpdateImr, i8259PicWriteData, ioWriteByte, setImr] using hs pic'
  · simpa [Storm.updateMask, i8259PicUpdateImr, i8259PicWriteData, ioWriteByte, setImr, h] using
      hs pic'

/-- **The output of a mask** arrives at its controller. -/
theorem chipsAfter_updateMask (hready : (chips pic).awaited = []) :
    chipsAfter chips [.setImr pic imr, .out (dataPortOf pic) imr] =
      Function.update chips pic { chips pic with imr } := by
  show chipsStep chips (.out (dataPortOf pic) imr) = _
  rw [chipsStep_dataPort, InterruptController.Chip.data_of_ready hready]

/-- A change of a mask does not change how the controllers are programmed. -/
theorem Programmed.updateMask (h : Programmed chips) :
    Programmed (Function.update chips pic { chips pic with imr }) := by
  obtain ⟨hready, hvectors, hcascade⟩ := h
  refine ⟨fun pic' => ?_, ?_, ?_⟩
  · by_cases heq : pic' = pic
    · subst heq
      simpa using hready pic'
    · simpa [heq] using hready pic'
  · cases pic <;> exact hvectors
  · cases pic <;> exact hcascade

/-- An end of interrupt changes only which lines are in service. -/
theorem chipsStep_eoi (chips : Chips) (pic pic' : Pic) :
    ∃ isr, chipsStep chips (.out (cmdPortOf pic) i8259EoiCmd) pic' = { chips pic' with isr } := by
  rw [chipsStep_cmdPort]
  by_cases h : pic' = pic
  · subst h
    rw [Function.update_self]
    exact ⟨_, rfl⟩
  · rw [Function.update_of_ne h]
    exact ⟨(chips pic').isr, rfl⟩

/-! ## Runs of calls -/

/-- One more call: it decides when it switches the line. -/
theorem enabled_append_singleton {c : PicCall} : Enabled n (calls ++ [c]) ↔
    (c.switches n = some true ∨ c.switches n = none ∧ Enabled n calls) := by
  rw [Enabled, List.filterMap_append, List.getLast?_append]
  cases h : c.switches n with
  | none => simp [h, Enabled]
  | some b => simp [h]

/-- **A call that switches a line**, on when `v` is set, by a new mask for its controller. -/
theorem PicsAgree.switch (h : PicsAgree calls s chips) (hs : s.Wired) (c : PicCall) (v : Bool)
    (imr : Byte) (hc : ∀ n, c.switches n = if irq = n then some v else none)
    (hmask : ∀ n < i8259NoIrqs, picOf n = picOf irq → imr.getLsbD (lineOf n).toNat =
      if n = irq then !v else (s.pics (picOf n)).imr.getLsbD (lineOf n).toNat) :
    ∃ events, (updateMask (picOf irq) imr s).trace = s.trace ++ events ∧
      PicsAgree (calls ++ [c]) (updateMask (picOf irq) imr s) (chipsAfter chips events) := by
  refine ⟨_, updateMask_trace hs, ?_⟩
  rw [chipsAfter_updateMask (h.programmed.ready _)]
  refine ⟨h.programmed.updateMask, fun pic => ?_, fun n hn => ?_⟩
  -- the masks
  · rw [updateMask_imr]
    by_cases heq : pic = picOf irq
    · subst heq
      simp
    · simp [heq, h.mask pic]
  -- the lines: those of the other controller are not touched
  · rw [enabled_append_singleton, hc]
    by_cases hpic : picOf n = picOf irq
    · rw [hpic, Function.update_self, hmask n hn hpic]
      by_cases heq : n = irq
      · simp [heq]
      · simp [heq, Ne.symm heq, ← h.lines n hn, h.mask]
    · have hne : irq ≠ n := fun heq => hpic (heq ▸ rfl)
      rw [Function.update_of_ne hpic]
      simp [hne, h.lines n hn]

/-- The bit of a line in the mask of its own controller. -/
theorem lineOf_eq_iff (hpic : picOf n = picOf irq) : lineOf n = lineOf irq ↔ n = irq :=
  ⟨eq_of_picOf_eq hpic, fun h => by rw [h]⟩

/-- **`i8259_enable_irq`** keeps the view right. -/
theorem PicsAgree.enable (h : PicsAgree calls s chips) (hs : s.Wired) (hirq : irq < i8259NoIrqs) :
    ∃ s' events, i8259EnableIrq irq s = .ok s' ∧ s'.trace = s.trace ++ events ∧ s'.Wired ∧
      PicsAgree (calls ++ [.enable irq]) s' (chipsAfter chips events) := by
  obtain ⟨events, htrace, h'⟩ := h.switch hs (.enable irq) true
    (clearLine (s.pics (picOf irq)).imr (lineOf irq)) (fun n => rfl) fun n hn hpic => by
      rw [getLsbD_clearLine (toNat_lineOf_lt hirq) (toNat_lineOf_lt hn), hpic]
      by_cases heq : n = irq <;> simp [lineOf_eq_iff hpic, heq]
  exact ⟨_, events, i8259EnableIrq_eq_updateMask hirq, htrace, hs.updateMask, h'⟩

/-- **`i8259_disable_irq`** keeps the view right. -/
theorem PicsAgree.disable (h : PicsAgree calls s chips) (hs : s.Wired) (hirq : irq < i8259NoIrqs) :
    ∃ s' events, i8259DisableIrq irq s = .ok s' ∧ s'.trace = s.trace ++ events ∧ s'.Wired ∧
      PicsAgree (calls ++ [.disable irq]) s' (chipsAfter chips events) := by
  obtain ⟨events, htrace, h'⟩ := h.switch hs (.disable irq) false
    (setLine (s.pics (picOf irq)).imr (lineOf irq)) (fun n => rfl) fun n hn hpic => by
      rw [getLsbD_setLine (toNat_lineOf_lt hirq) (toNat_lineOf_lt hn), hpic]
      by_cases heq : n = irq <;> simp [lineOf_eq_iff hpic, heq]
  exact ⟨_, events, i8259DisableIrq_eq_updateMask hirq, htrace, hs.updateMask, h'⟩

/-- Ends of interrupts change only which lines are in service. -/
theorem chipsAfter_eoiEvents (chips : Chips) (irq : Byte) (pic : Pic) :
    ∃ isr, chipsAfter chips (eoiEvents irq) pic = { chips pic with isr } := by
  have hmaster (chips : Chips) := chipsStep_eoi chips .master pic
  unfold eoiEvents
  split
  · obtain ⟨isr, hslave⟩ := chipsStep_eoi chips .slave pic
    obtain ⟨isr', hmaster⟩ := hmaster (chipsStep chips (.out (cmdPortOf .slave) i8259EoiCmd))
    exact ⟨isr', by rw [hslave] at hmaster; exact hmaster⟩
  · exact hmaster chips

/-- How the controllers are programmed does not depend on the lines in service. -/
theorem Programmed.congr {chips' : Chips} (h : Programmed chips)
    (hchips : ∀ pic, ∃ isr, chips' pic = { chips pic with isr }) : Programmed chips' := by
  obtain ⟨hready, hvectors, hcascade⟩ := h
  obtain ⟨master, hmaster⟩ := hchips .master
  obtain ⟨slave, hslave⟩ := hchips .slave
  refine ⟨fun pic => ?_, ?_, ?_⟩
  · obtain ⟨isr, heq⟩ := hchips pic
    rw [heq]
    exact hready pic
  · rw [hmaster, hslave]
    exact hvectors
  · rw [hmaster, hslave]
    exact hcascade

/-- Neither does the view. -/
theorem PicsAgree.congr {calls' : List PicCall} {s' : PicState} {chips' : Chips}
    (h : PicsAgree calls s chips) (hpics : s'.pics = s.pics)
    (hchips : ∀ pic, ∃ isr, chips' pic = { chips pic with isr })
    (hcalls : ∀ n, Enabled n calls' ↔ Enabled n calls) : PicsAgree calls' s' chips' := by
  refine ⟨h.programmed.congr hchips, fun pic => ?_, fun n hn => ?_⟩
  · obtain ⟨isr, heq⟩ := hchips pic
    rw [heq, hpics]
    exact h.mask pic
  · obtain ⟨isr, heq⟩ := hchips (picOf n)
    rw [heq, hcalls]
    exact h.lines n hn

/-- **`i8259_send_eoi`**, for any number, keeps the view right. -/
theorem PicsAgree.sendEoi (h : PicsAgree calls s chips) (hs : s.Wired) (irq : Byte) :
    ∃ events, (i8259SendEoi irq s).trace = s.trace ++ events ∧ (i8259SendEoi irq s).Wired ∧
      PicsAgree (calls ++ [.sendEoi irq]) (i8259SendEoi irq s) (chipsAfter chips events) := by
  rw [i8259SendEoi_eq fun pic => (hs pic).1]
  refine ⟨_, rfl, hs, h.congr rfl (chipsAfter_eoiEvents chips irq) fun n => ?_⟩
  rw [enabled_append_singleton]
  simp [PicCall.switches]

/-- **A valid call** succeeds and keeps the view right. -/
theorem PicsAgree.exec {c : PicCall} (h : PicsAgree calls s chips) (hs : s.Wired) (hc : c.Valid) :
    ∃ s' events, c.exec s = .ok s' ∧ s'.trace = s.trace ++ events ∧ s'.Wired ∧
      PicsAgree (calls ++ [c]) s' (chipsAfter chips events) := by
  cases c with
  | enable irq => exact h.enable hs hc
  | disable irq => exact h.disable hs hc
  | sendEoi irq =>
      obtain ⟨events, htrace, hwired, h'⟩ := h.sendEoi hs irq
      exact ⟨_, events, rfl, htrace, hwired, h'⟩

/-! ## The initialization -/

/-- What `i8259_init` adds to the history before it enables the line of the slave. -/
def initEvents : List IrqEvent := [
  .setImr .master 0xff, .setImr .slave 0xff,
  .out 0x20 0x11, .out 0xA0 0x11,
  .out 0x21 32, .out 0xA1 40,
  .out 0x21 4, .out 0xA1 2,
  .out 0x21 1, .out 0xA1 1,
  .out 0x21 0xff, .out 0xA1 0xff]

/-- `i8259_init`, up to the call of `i8259_enable_irq`. -/
theorem i8259Init_eq (s : PicState) : ∃ s₁, i8259Init s = i8259EnableIrq i8259SlaveIrq s₁ ∧
    s₁.Wired ∧ s₁.trace = s.trace ++ initEvents ∧ ∀ pic, (s₁.pics pic).imr = 0xff := by
  refine ⟨_, rfl, fun pic => ?_, ?_, fun pic => ?_⟩
  · cases pic <;> exact ⟨rfl, rfl⟩
  · simp only [ioWriteByte, i8259PicUpdateImr, i8259PicWriteData, i8259PicWriteCmd,
      i8259SlavePicInit, i8259MasterPicInit, i8259PicInit, setImr, List.append_assoc]
    rfl
  · cases pic <;> rfl

/-- **The initialization of the controllers**, whatever state they are in. -/
theorem chipsAfter_initEvents (chips : Chips) : chipsAfter chips initEvents = fun
    | .master => ⟨[], 32, 4, 1, 0xff, (chips .master).isr⟩
    | .slave => ⟨[], 40, 2, 1, 0xff, (chips .slave).isr⟩ := by
  funext pic
  cases pic <;> rfl

/-- **`i8259_init`** makes the view right, for whatever controllers. -/
theorem i8259Init_picsAgree (s : PicState) (chips : Chips) :
    ∃ s' events, i8259Init s = .ok s' ∧ s'.trace = s.trace ++ events ∧ s'.Wired ∧
      PicsAgree [] s' (chipsAfter chips events) := by
  obtain ⟨s₁, hinit, hs₁, htrace₁, himr⟩ := i8259Init_eq s
  -- before the last call everything is masked, as if the line of the slave had been disabled
  have h₁ : PicsAgree [.disable i8259SlaveIrq] s₁ (chipsAfter chips initEvents) := by
    rw [chipsAfter_initEvents]
    refine ⟨⟨fun pic => ?_, ?_, ?_⟩, fun pic => ?_, fun n hn => ?_⟩
    · cases pic <;> rfl
    · constructor
      · show (32#8 &&& 0xf8#8) + BitVec.ofNat 8 0 = 32
        decide
      · show (40#8 &&& 0xf8#8) + BitVec.ofNat 8 0 = 40
        decide
    · constructor <;> rfl
    · rw [himr]
      cases pic <;> rfl
    · refine iff_of_false (fun hbit => not_unmasks_all (picOf n) ⟨hn, rfl, ?_⟩) ?_
      · cases hpic : picOf n <;> rw [hpic] at hbit <;> exact hbit
      · by_cases heq : n = i8259SlaveIrq
        · simp [Enabled, PicCall.switches, heq]
        · simp [Enabled, PicCall.switches, heq, Ne.symm heq]
  obtain ⟨s', events, henable, htrace, hs', h'⟩ := h₁.enable hs₁
    (show i8259SlaveIrq < i8259NoIrqs by decide)
  refine ⟨s', initEvents ++ events, hinit.trans henable, ?_, hs', ?_⟩
  · rw [htrace, htrace₁, List.append_assoc]
  · rw [chipsAfter_append]
    -- the two calls together enable the line of the slave, as the empty sequence is said to do
    refine h'.congr rfl (fun pic => ⟨_, rfl⟩) fun n => ?_
    by_cases heq : n = i8259SlaveIrq
    · simp [Enabled, PicCall.switches, heq]
    · simp [Enabled, PicCall.switches, heq, Ne.symm heq]

/-- The initialization does not change which lines are in service. -/
theorem isr_i8259Init {s' : PicState} (h : i8259Init s = .ok s')
    (hevents : s'.trace = s.trace ++ events) :
    (chipsAfter chips events pic).isr = (chips pic).isr := by
  obtain ⟨s₁, hinit, hs₁, htrace₁, -⟩ := i8259Init_eq s
  rw [hinit, i8259EnableIrq_eq_updateMask (by decide)] at h
  obtain rfl := Except.ok.inj h
  rw [updateMask_trace hs₁, htrace₁, List.append_assoc, List.append_cancel_left_eq] at hevents
  subst hevents
  have hready : (chipsAfter chips initEvents (picOf i8259SlaveIrq)).awaited = [] := by
    rw [chipsAfter_initEvents]
    rfl
  rw [chipsAfter_append, chipsAfter_updateMask hready, chipsAfter_initEvents]
  cases pic <;> rfl

/-- **Valid calls** succeed and keep the view right. -/
theorem PicsAgree.run (h : PicsAgree [] s chips) (hs : s.Wired) (hcalls : ∀ c ∈ calls, c.Valid) :
    ∃ s' events, runPicCalls calls s = .ok s' ∧ s'.trace = s.trace ++ events ∧ s'.Wired ∧
      PicsAgree calls s' (chipsAfter chips events) := by
  induction calls using List.reverseRecOn with
  | nil => exact ⟨s, [], rfl, (List.append_nil _).symm, hs, h⟩
  | append_singleton calls c ih =>
      obtain ⟨s₁, events, hrun, htrace, hs₁, h₁⟩ := ih fun c hc =>
        hcalls c (List.mem_append_left _ hc)
      obtain ⟨s₂, events', hexec, htrace', hs₂, h₂⟩ := h₁.exec hs₁
        (hcalls c (List.mem_append_right _ (List.mem_singleton_self c)))
      refine ⟨s₂, events ++ events', ?_, ?_, hs₂, ?_⟩
      · rw [runPicCalls, List.foldlM_append, ← runPicCalls, hrun]
        show (c.exec s₁ >>= pure) = _
        rw [hexec]
        rfl
      · rw [htrace', htrace, List.append_assoc]
      · rwa [chipsAfter_append]

/-- **The software's view of the controllers is right** after `i8259_init` and any valid calls,
whatever state the controllers were in before. -/
theorem pics_agree (s₀ : PicState) (chips : Chips) (hcalls : ∀ c ∈ calls, c.Valid) :
    ∃ s trace, (i8259Init s₀ >>= runPicCalls calls) = .ok s ∧ s.trace = s₀.trace ++ trace ∧
      PicsAgree calls s (chipsAfter chips trace) := by
  obtain ⟨s₁, events, hinit, htrace, hs₁, h₁⟩ := i8259Init_picsAgree s₀ chips
  obtain ⟨s, events', hrun, htrace', -, h⟩ := h₁.run hs₁ hcalls
  refine ⟨s, events ++ events', ?_, ?_, ?_⟩
  · rw [hinit]
    exact hrun
  · rw [htrace', htrace, List.append_assoc]
  · rwa [chipsAfter_append]

/-- Controllers that an initialization has left halfway, with all lines in service. -/
def halfwayChips : Chips := fun _ => ⟨[.icw3, .icw4], 8, 0, 0, 0, 0xff⟩

theorem pics_agree_halfway :
    ∃ s trace, (i8259Init ⟨fun _ => ⟨0, 0, 0⟩, []⟩ >>= runPicCalls
        [.enable 0, .enable 9, .disable 0, .sendEoi 200]) = .ok s ∧ s.trace = [] ++ trace ∧
      PicsAgree [.enable 0, .enable 9, .disable 0, .sendEoi 200] s
        (chipsAfter halfwayChips trace) :=
  pics_agree ⟨fun _ => ⟨0, 0, 0⟩, []⟩ halfwayChips (by simp [PicCall.Valid, i8259NoIrqs])

end Storm
