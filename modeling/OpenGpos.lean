import OpenGpos.Lib.Fuel
import OpenGpos.Lib.Runs
import OpenGpos.Lib.Tiling
import OpenGpos.Lib.Streams
import OpenGpos.Libc.Heap
import OpenGpos.Libc.HeapRep
import OpenGpos.Libc.HeapSpec
import OpenGpos.Libc.HeapInv
import OpenGpos.Libc.HeapCalls
import OpenGpos.Libc.HeapSizes
import OpenGpos.Fat.Mount
import OpenGpos.Libc.Strings
import OpenGpos.Fat.Cluster
import OpenGpos.Fat.Dir
import OpenGpos.Fat.Entry
import OpenGpos.Fat.LongName
import OpenGpos.Fat.File
import OpenGpos.Fat.Read
import OpenGpos.Fat.Walk
import OpenGpos.Fat.Frame
import OpenGpos.Fat.Cursor
import OpenGpos.Fat.Reach
import OpenGpos.Fat.Handles
import OpenGpos.Fat.Stream
import OpenGpos.Fat.Listing
import OpenGpos.Fat.Names
import OpenGpos.Fat.RoundTrip
import OpenGpos.Fat.Mixing
import OpenGpos.Fat.Scan
import OpenGpos.Fat.Lookup
import OpenGpos.Fat.Bounds
import OpenGpos.Fat.Confine
import OpenGpos.Lib.Thumb
import OpenGpos.Kernel.Syscall
import OpenGpos.Lib.Fifo
import OpenGpos.Lib.Flow
import OpenGpos.Sd.Driver
import OpenGpos.Sd.Card
import OpenGpos.Sd.Clocking
import OpenGpos.Sd.Timing
import OpenGpos.Sd.Quiet
import OpenGpos.Kernel.Startup
import OpenGpos.Lib.Elf
import OpenGpos.Kernel.Loader
import OpenGpos.Kernel.Segments
import OpenGpos.Kernel.Load
import OpenGpos.Kernel.FailClosed
import OpenGpos.Kernel.Overlap
import OpenGpos.Lib.Traced
import OpenGpos.Kernel.Reads
import OpenGpos.Kernel.Leaks
import OpenGpos.Fat.Turns
import OpenGpos.Fat.Trail
import OpenGpos.Fat.Final
import OpenGpos.Fat.Retry
import OpenGpos.Fat.Parent
import OpenGpos.Fat.Short
import OpenGpos.Fat.Remount
import OpenGpos.Fat.ShortNames
import OpenGpos.Fat.NameBounds
import OpenGpos.Fat.Garbage
import OpenGpos.Fat.Sweep
import OpenGpos.Lib.Crc
import OpenGpos.Boot.Crc32
import OpenGpos.Kernel.Process
import OpenGpos.Lib.Tape
import OpenGpos.Libc.Strtok
import OpenGpos.Sd.Readers
import OpenGpos.Sd.Select
import OpenGpos.Lib.Rounding
import OpenGpos.Uart.Divisor
import OpenGpos.Libc.Strchr
import OpenGpos.Lib.Bursts
import OpenGpos.Boot.CompCrc32
import OpenGpos.Lib.Numerals
import OpenGpos.Util.HexUtils
import OpenGpos.Lib.Mmio
import OpenGpos.Uart.Port
import OpenGpos.Uart.Printing
import OpenGpos.Kernel.Console
import OpenGpos.Lib.Prompt
import OpenGpos.Sd.Link
import OpenGpos.Sd.Session
import OpenGpos.Lib.BitFields
import OpenGpos.Lib.Transfers
import OpenGpos.Dma.Config
import OpenGpos.Dma.Block
import OpenGpos.Dma.Plan
import OpenGpos.Dma.Transfer
import OpenGpos.Lib.Dialogs
import OpenGpos.Fat.Asking
import OpenGpos.Fat.Requests
import OpenGpos.Kernel.OverSpi
import OpenGpos.Libc.Unistd
import OpenGpos.Lib.BringUp
import OpenGpos.Kernel.Clocks
import OpenGpos.Lib.TwoRuns
import OpenGpos.Fat.Isolation
import OpenGpos.Fat.Cost
import OpenGpos.Lib.Losses
import OpenGpos.Sd.Writing
import OpenGpos.Sd.Cycles
