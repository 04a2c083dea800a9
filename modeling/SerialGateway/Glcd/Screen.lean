/-!
This module contains the size of the screen (`GLCD.h`) and the calls that draw on it.
-/

namespace SerialGateway

/--
`MAX_X` for `DISP_ORIENTATION` 0.
-/
def maxX : UInt16 := 240

def maxY : UInt16 := 320

structure SetPoint where
  xpos : UInt16
  ypos : UInt16
  point : UInt16
  deriving DecidableEq, Repr

/--
`LCD_SetPoint` ignores the other points.
-/
def SetPoint.OnScreen (p : SetPoint) : Prop := p.xpos < maxX ∧ p.ypos < maxY

end SerialGateway
