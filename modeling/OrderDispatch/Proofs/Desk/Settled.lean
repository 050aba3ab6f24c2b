import OrderDispatch.Proofs.Desk.Turns

/-!
# Figures that settle

An order that is read, changed and written back keeps its figures exactly if they are read back as
they are. Not all are, but most settle: what is read once is read the same ever after.

    o.IsSteady   reading o back gives o
    o.Settles    reading o back gives a steady order

What is found of an order that settles is steady from the first time on, whatever becomes of it and
however often the bookkeeper rewrites its row.
-/

namespace OrderDispatch

/-- Reading the order back gives the order itself. -/
def Order.IsSteady (o : Order) : Prop := Rereads.reread? o = some o

/-- Reading the order back twice gives what reading it back once does. -/
def Order.Settles (o : Order) : Prop :=
  (Rereads.reread? o).bind Rereads.reread? = Rereads.reread? o

/-- A step opens no order but one of a kind. -/
def DeskStep.OpensOnly (kind : Order → Prop) (s : DeskStep) : Prop :=
  ∀ r o, s.event = .request (.create r) → r.Opens s.moment o → kind o

namespace Order

theorem IsSteady.settles (o : Order) (h : o.IsSteady) : o.Settles := by
  unfold Settles
  rw [show Rereads.reread? o = some o from h]
  exact h

theorem Settles.isSteady (o o' : Order) (h : o.Settles) (hread : Rereads.reread? o = some o') :
    o'.IsSteady := by
  unfold Settles at h
  rwa [hread] at h

/-- Whether an order is steady depends on its figures alone. -/
theorem IsSteady.withFigures (o p : Order) (hp : p.IsSteady) (h : o = o.withFigures p) :
    o.IsSteady := by
  unfold IsSteady
  rw [h, reread?_withFigures, show Rereads.reread? p = some p from hp]
  rfl

end Order

/-- Nothing that becomes of an order changes its figures. -/
theorem DeskEvent.Turns.figures (now : Timestamp) (e : DeskEvent) (i : String) (old new : Order)
    (h : e.Turns now i old new) : new = new.withFigures old := by
  cases h <;> rfl

namespace OrderStore

/-- A steady order that is stored is what is found. -/
theorem get_of_isSteady (s : OrderStore) (i : String) (o : Order) (hstored : s.Stored i o)
    (h : o.IsSteady) : s.get i = .ok (some o) :=
  get_of_reread? s i o o hstored h

/-- All that is found is steady, and where it is to be exact, it is what is stored. -/
def FindsSteady (exact : Prop) (s : OrderStore) : Prop :=
  ∀ i o, s.get i = .ok (some o) → o.IsSteady ∧ (exact → s.Stored i o)

theorem findsSteady_rowTurns (exact : Prop) (s : DeskStep) (u t : OrderStore)
    (hsettling : s.OpensOnly Order.Settles) (hsteady : exact → s.OpensOnly Order.IsSteady)
    (hu : u.FindsSteady exact) (h : ∀ i, RowTurns s u t i) : t.FindsSteady exact := by
  intro i o hget
  have hwritten : ∀ p, t.Stored i p → p.IsSteady → o.IsSteady ∧ (exact → t.Stored i o) := by
    intro p hstored hp
    rw [get_of_isSteady t i p hstored hp] at hget
    cases hget
    exact ⟨hp, fun _ => hstored⟩
  cases h i with
  | same row =>
    obtain ⟨ho, hstored⟩ := hu i o ((get_congr u t i row).symm.trans hget)
    exact ⟨ho, fun hexact => row.trans (hstored hexact)⟩
  | opened r p event opens _ _ stored =>
    have ho := (hsettling r p event opens).isSteady p o (reread?_of_get t i p o stored hget)
    exact ⟨ho, fun hexact => (hwritten p stored (hsteady hexact r p event opens)).2 hexact⟩
  | turned old new found turns stored =>
    exact hwritten new stored ((hu i old found).1.withFigures new old (turns.figures _ _ i old new))
  | noted _ old txRef found stored =>
    exact hwritten _ stored ((hu i old found).1.withFigures _ old rfl)

end OrderStore

/-- What is found after a run that opens nothing but orders that settle is steady. If they are
steady from the beginning, it is what is stored. -/
theorem Desk.findsSteady_run (exact : Prop) (capacity : Nat) (steps : List DeskStep)
    (hsettling : ∀ s ∈ steps, s.OpensOnly Order.Settles)
    (hsteady : exact → ∀ s ∈ steps, s.OpensOnly Order.IsSteady) :
    (run capacity steps).store.FindsSteady exact := by
  induction steps using List.reverseRecOn with
  | nil =>
    intro i o hget
    cases hget
  | append_singleton steps s ih =>
    have hbefore : ∀ s' ∈ steps, s' ∈ steps ++ [s] := fun s' hs' => List.mem_append_left _ hs'
    rw [run_append]
    exact OrderStore.findsSteady_rowTurns exact s _ _ (hsettling s (by simp))
      (fun hexact => hsteady hexact s (by simp))
      (ih (fun s' hs' => hsettling s' (hbefore s' hs'))
        fun hexact s' hs' => hsteady hexact s' (hbefore s' hs')) (rowTurns_after _ s)

end OrderDispatch
