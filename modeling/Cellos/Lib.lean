import Cellos.Lib.Bitmap
import Cellos.Lib.Circular
import Cellos.Lib.Custody
import Cellos.Lib.Fallible
import Cellos.Lib.History
import Cellos.Lib.Lineage
import Cellos.Lib.Radix
import Cellos.Lib.Run
import Cellos.Lib.Slots
import Cellos.Lib.Tally
import Cellos.Lib.WaitQueue
import Cellos.Lib.Window
