import CanTracer.CanMsg.Decodable
import CanTracer.MainWindow.Adding
import CanTracer.MainWindow.Charts
import CanTracer.MainWindow.Databases
import CanTracer.MainWindow.Failures

/-!
# What the window requires

The steps that can fail: the two actions that take a row from their menu, the signal dialog, and the end of a
load of a log. All others return from every state that is reached.
-/

namespace CanTracer

namespace LogWindow

end LogWindow

namespace MainWindow

section
variable (qt : Qt) (fuel : Nat) (takesNaN : Bool)

variable {qt fuel takesNaN}

end
end MainWindow
end CanTracer
