import Kyacopycat.Display.Window
import Kyacopycat.Serial
import Kyacopycat.Persistence
import Kyacopycat.Bus.ReadOrder
import Kyacopycat.Bus.WriteFrame
import Kyacopycat.Devices
import Kyacopycat.Timer
import Kyacopycat.Watchdog
import Kyacopycat.Truncated
import Kyacopycat.Keyboard.Sdl
import Kyacopycat.Keyboard.Scan
import Kyacopycat.Options.Argv
import Kyacopycat.Options.Dangling
import Kyacopycat.Options.Numbers
import Kyacopycat.Options.Spelling
import Kyacopycat.Pacing
import Kyacopycat.Musashi.Decimal
import Kyacopycat.Musashi.Interrupts
import Kyacopycat.Musashi.Generator
import Kyacopycat.Musashi.Scope
import Kyacopycat.Musashi.Loop
import Kyacopycat.Output
