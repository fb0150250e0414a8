import OsdCore.Prog.Basic
import OsdCore.Format.Bytes
import OsdCore.Format.Tlv
import OsdCore.Format.CString
import OsdCore.Device.Disk
import OsdCore.Stdio.Basic
import OsdCore.Stdio.Spec
import OsdCore.Stdio.Read
import OsdCore.Stdio.Table
import OsdCore.Stdio.OpenRead
import OsdCore.Stdio.Reader
import OsdCore.Stdio.Kinds
import OsdCore.Stdio.Encrypted
import OsdCore.Stdio.Eof
import OsdCore.Stdio.Peek
import OsdCore.Stdio.Lines
import OsdCore.Stdio.Bounds
import OsdCore.Stdio.FileCalls
import OsdCore.Stdio.Slots
import OsdCore.Stdio.Agree
import OsdCore.Stdio.Objects
import OsdCore.Stdio.Offset
import OsdCore.Stdio.Resolve
import OsdCore.Luadb.Decode
import OsdCore.Luadb.Bounds
import OsdCore.Luadb.Encode
import OsdCore.Luadb.Name
import OsdCore.Luadb.Install
import OsdCore.Luadb.Pass
import OsdCore.Luadb.Accept
import OsdCore.Luadb.Contents
import OsdCore.Luadb.InstallLaw
import OsdCore.Luadb.Update
import OsdCore.Luadb.Sections
import OsdCore.Luadb.Lzma
import OsdCore.Boot.Basic
import OsdCore.Boot.Spec
import OsdCore.Boot.Settle
import OsdCore.Boot.Precedence
import OsdCore.Boot.Rollback
import OsdCore.Boot.Crash
import OsdCore.Queue.Cycle
import OsdCore.Prog.Machine
import OsdCore.Queue.Channel
import OsdCore.Uart.Atc
import OsdCore.Uart.Debug
import OsdCore.Uart.LuaRead
import OsdCore.Uart.LuaStream
import OsdCore.Uart.LuaWrite
import OsdCore.Rtos.TimerRecycle
import OsdCore.Rtos.Dirs
import OsdCore.Audio.Sound
import OsdCore.Devman.Basic
import OsdCore.Devman.Lookup
import OsdCore.Devman.Runs
import OsdCore.Disp.Basic
import OsdCore.Disp.Text
import OsdCore.Disp.Image
import OsdCore.Disp.Shapes
import OsdCore.Disp.Mono
import OsdCore.Disp.Paint
import OsdCore.Disp.Blit
import OsdCore.Disp.Qrcode
import OsdCore.Disp.Fonts
import OsdCore.Disp.Layout
import OsdCore.Disp.Rect
import OsdCore.Iconv.RoundTrip
import OsdCore.Prog.Transducer
import OsdCore.Iconv.Gb2312
import OsdCore.Iconv.Pieces
import OsdCore.Iconv.Gb2312Bounds
import OsdCore.Iconv.Accounting
import OsdCore.Iconv.Chunked
import OsdCore.Iconv.Grammar
import OsdCore.Time.Clock
import OsdCore.Crc.Register
import OsdCore.Crc.Basic
import OsdCore.Format.Blocks
import OsdCore.Format.Bits
import OsdCore.Crypto.Ecb
import OsdCore.Spi.Slave
import OsdCore.At7456e.Spi
import OsdCore.At7456e.Text
import OsdCore.Bmp280.Basic
import OsdCore.Bmp280.Compensate
import OsdCore.Format.Fields
import OsdCore.Bitarray.Basic
import OsdCore.Bitarray.Store
import OsdCore.Bitarray.New
import OsdCore.Prog.Trace
import OsdCore.Rtos.Pmd
import OsdCore.Geometry.ErrorTerm
import OsdCore.Disp.Line
import OsdCore.Format.Ram
import OsdCore.Disp.Png
import OsdCore.Pio.Op
import OsdCore.Lua.Traverse
import OsdCore.Lua.Border
import OsdCore.Format.Listing
import OsdCore.Json.Decode
import OsdCore.Json.Escape
import OsdCore.Json.Render
import OsdCore.Json.Complete
import OsdCore.Json.Plain
