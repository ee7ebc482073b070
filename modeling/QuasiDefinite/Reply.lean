import QuasiDefinite.Error
import QuasiDefinite.Event

/-!
The reply of an operation on a state: its result, the state it leaves, whether
it succeeded or not, and the events on the way.
-/

namespace QuasiDefinite

structure Reply (α σ β : Type) where
  result : Except (Error α) β
  state : σ
  events : List (Event α)

namespace Reply

variable {α σ τ β : Type}

def answer (state : σ) (value : β) : Reply α σ β :=
  ⟨.ok value, state, []⟩

def refuse (state : σ) (error : Error α) : Reply α σ β :=
  ⟨.error error, state, []⟩

def mapState (change : σ → τ) (reply : Reply α σ β) : Reply α τ β :=
  ⟨reply.result, change reply.state, reply.events⟩

end Reply

end QuasiDefinite
